import EcrToolkit.ReportedAddress
import EcrToolkit.WallLog
import EcrToolkit.WordSearch

/-!
# The cycle figures of the script

`ecr.sh -l` and `ecr.sh -m` run one ioctl and read five, or ten, figures out of the log.
`cache_parse` looks for the offset as a word of the record, `memory_parse` for the page
number after `access page`; neither stops at the last record that matches, but
`${dm##* }` does.

`cacheParse_eq` and `memoryParse_eq` say which figure they find in any log.
-/
namespace EcrToolkit

open AtomicProgram TextTools

/-- `cache_parse`. -/
def cacheParse (dmesg dmesg' : List Line) (val : Line) : Line :=
  lastWord (output (grepWord val
    (grep "Average clock cycles".toList (sinceInsertion dmesg dmesg'))))

/-- `memory_parse`. -/
def memoryParse (dmesg dmesg' : List Line) (val : Line) : Line :=
  lastWord (output (grep ("access page ".toList ++ val) (sinceInsertion dmesg dmesg')))

/-- `0x%x`. -/
def hexWord (n : Nat) : Line := '0' :: 'x' :: Nat.toDigits 16 n

/-- `%d`. -/
def decimal (n : Int) : Line := (Int.repr n).toList

/-! ## The texts of the reports -/

theorem hexWord_inj {m n : Nat} : hexWord m = hexWord n ↔ m = n := by
  refine ⟨fun h => ?_, fun h => h ▸ rfl⟩
  have hdigits : Nat.toDigits 16 m = Nat.toDigits 16 n := by
    rw [hexWord, hexWord] at h
    exact List.tail_eq_of_cons_eq (List.tail_eq_of_cons_eq h)
  rw [← hexValue_toDigits m, hdigits, hexValue_toDigits]

theorem mem_hexWord {n : Nat} (hn : n < 2 ^ 64) {c : Char} (h : c ∈ hexWord n) :
    c ∈ "x0123456789abcdef".toList := by
  rcases List.mem_cons.mp h with rfl | h
  · decide
  · rcases List.mem_cons.mp h with rfl | h
    · decide
    · refine List.mem_cons_of_mem 'x' (mem_hexPointer (p := BitVec.ofNat 64 n) ?_)
      rw [hexPointer, String.toList_ofList, BitVec.toNat_ofNat, Nat.mod_eq_of_lt hn]
      exact List.mem_append_right _ h

theorem isWordChar_hexWord {n : Nat} (hn : n < 2 ^ 64) : ∀ c ∈ hexWord n, isWordChar c = true :=
  fun _ hc => List.all_eq_true.mp
    (by decide : "x0123456789abcdef".toList.all isWordChar = true) _ (mem_hexWord hn hc)

theorem decimal_negSucc (n : Nat) : decimal (.negSucc n) = '-' :: (Nat.repr (n + 1)).toList := by
  simp [decimal, Int.repr, String.toList_append]

theorem mem_decimal {n : Int} {c : Char} (h : c ∈ decimal n) : c.isDigit = true ∨ c = '-' := by
  cases n with
  | ofNat n => exact Or.inl (digit_of_mem_repr h)
  | negSucc n =>
    rw [decimal_negSucc] at h
    rcases List.mem_cons.mp h with rfl | h
    · exact Or.inr rfl
    · exact Or.inl (digit_of_mem_repr h)

theorem decimal_ne_nil (n : Int) : decimal n ≠ [] := by
  cases n with
  | ofNat n => exact repr_ne_nil n
  | negSucc n =>
    rw [decimal_negSucc]
    nofun

theorem decimal_not_blank {n : Int} : ∀ c ∈ decimal n, isBlank c = false := by
  intro c hc
  rcases mem_decimal hc with h | rfl
  · by_contra hb
    simp only [isBlank, Bool.not_eq_false, Bool.or_eq_true, beq_iff_eq] at hb
    rcases hb with (rfl | rfl) | rfl <;> revert h <;> decide
  · decide

/-- A signed number is printed as an unsigned one if and only if it is that number. -/
theorem decimal_eq_repr_iff {z : Int} {n : Nat} : decimal z = (Nat.repr n).toList ↔ z = n := by
  cases z with
  | ofNat m => exact repr_inj.trans Int.ofNat_inj.symm
  | negSucc m =>
    refine iff_of_false (fun h => ?_) nofun
    rw [decimal_negSucc] at h
    have hmem : '-' ∈ (Nat.repr n).toList := by
      rw [← h]
      exact List.mem_cons_self
    exact repr_notMem (by decide) hmem

theorem averageCycles_text (address : BitVec 64) (offset avg : BitVec 32) :
    (Record.averageCycles address offset avg).text.toList =
      "Average clock cycles at address".toList ++ ' ' :: (hexWord address.toNat ++
        ' ' :: ("(offset:".toList ++ ' ' :: (hexWord offset.toNat ++
          ')' :: (":".toList ++ ' ' :: decimal avg.toInt)))) := by
  have htext : (Record.averageCycles address offset avg).text.toList =
      "Average clock cycles at address 0x".toList ++ (hex address.toNat).toList ++
        " (offset: 0x".toList ++ (hex offset.toNat).toList ++ "): ".toList ++
          (Int.repr avg.toInt).toList := by
    rw [← String.toList_append, ← String.toList_append, ← String.toList_append,
      ← String.toList_append, ← String.toList_append]
    rfl
  have h1 : "Average clock cycles at address 0x".toList =
      "Average clock cycles at address".toList ++ [' ', '0', 'x'] := by decide
  have h2 : " (offset: 0x".toList = ' ' :: ("(offset:".toList ++ [' ', '0', 'x']) := by decide
  have h3 : "): ".toList = ')' :: (":".toList ++ [' ']) := by decide
  have hhex : ∀ n, (hex n).toList = Nat.toDigits 16 n := fun n => String.toList_ofList
  rw [htext, h1, h2, h3, hhex, hhex, hexWord, hexWord, decimal]
  simp only [List.append_assoc, List.cons_append, List.nil_append]

theorem pageCycles_text (i t : BitVec 32) : (Record.pageCycles i t).text.toList =
    "Cycles to ".toList ++ ("access page ".toList ++ (decimal i.toInt ++
      ':' :: ' ' :: decimal t.toInt)) := by
  have htext : (Record.pageCycles i t).text.toList = "Cycles to access page ".toList ++
      (Int.repr i.toInt).toList ++ ": ".toList ++ (Int.repr t.toInt).toList := by
    rw [← String.toList_append, ← String.toList_append, ← String.toList_append]
    rfl
  have h1 : "Cycles to access page ".toList = "Cycles to ".toList ++ "access page ".toList := by
    decide
  have h2 : ": ".toList = [':', ' '] := by decide
  rw [htext, h1, h2, decimal, decimal]
  simp only [List.append_assoc, List.cons_append, List.nil_append]

/-! ## Which lines are reports -/

/-- What `cache_parse` finds in a record: the figure, if the offset is `v`, or the
address is. -/
def Record.cacheFigure (v : BitVec 32) : Record → Option (BitVec 32)
  | .averageCycles address offset avg =>
    if offset = v ∨ address.toNat = v.toNat then some avg else none
  | _ => none

/-- What `memory_parse` finds in a record of one of ten pages. -/
def Record.pageFigure (k : Fin 10) : Record → Option (BitVec 32)
  | .pageCycles i t => if i.toNat = k then some t else none
  | _ => none

/-- A line that is a report, or contains neither phrase. -/
def LogLine.CycleLegible : LogLine → Prop
  | .entry e => (∃ address offset avg, e.record = .averageCycles address offset avg) ∨
      (∃ i t, e.record = .pageCycles i t ∧ i.toNat < 10) ∨
      ¬ "Average clock cycles".toList <:+: e.record.text.toList ∧
        ¬ "access page ".toList <:+: e.record.text.toList
  | .foreign l => ¬ "Average clock cycles".toList <:+: l ∧ ¬ "access page ".toList <:+: l

def LogLine.cacheFigure (v : BitVec 32) (i : LogLine) : Option (BitVec 32) :=
  i.record?.bind (·.cacheFigure v)

def LogLine.pageFigure (k : Fin 10) (i : LogLine) : Option (BitVec 32) :=
  i.record?.bind (·.pageFigure k)

/-- `cache_parse` selects the line. -/
def cacheSelects (val l : Line) : Bool :=
  selects "Average clock cycles".toList l && selectsWord val l

/-- **`grep -w 0x...` selects the reports of that offset**, or of that address. -/
theorem selectsWord_report (t : Stamp) (v : BitVec 32) (address : BitVec 64)
    (offset avg : BitVec 32) :
    selectsWord (hexWord v.toNat) (t.line (Record.averageCycles address offset avg).text.toList) =
      true ↔ offset = v ∨ address.toNat = v.toNat := by
  have hsmall : ∀ x : BitVec 32, x.toNat < 2 ^ 64 := fun x =>
    Nat.lt_trans x.isLt (by decide)
  -- a piece without an `x` is not the word
  have hnone : ∀ l : Line, 'x' ∉ l → hexWord v.toNat ∉ wordRuns l := fun l hx hmem =>
    hx (subset_of_mem_wordRuns hmem (by simp [hexWord]))
  have hword : ∀ n, n < 2 ^ 64 → (hexWord v.toNat ∈ wordRuns (hexWord n) ↔ n = v.toNat) := by
    intro n hn
    rw [wordRuns_word (isWordChar_hexWord hn), List.mem_singleton, hexWord_inj, eq_comm]
  have hfigure : 'x' ∉ ":".toList ++ ' ' :: decimal avg.toInt := by
    intro h
    rcases List.mem_append.mp h with h | h
    · revert h
      decide
    · rcases List.mem_cons.mp h with h | h
      · revert h
        decide
      · rcases mem_decimal h with h | h <;> revert h <;> decide
  have hstamp : 'x' ∉ t.line "Average clock cycles at address".toList :=
    notMem_line t (by decide) (by decide)
  have hline : t.line (Record.averageCycles address offset avg).text.toList =
      t.line "Average clock cycles at address".toList ++ ' ' :: (hexWord address.toNat ++
        ' ' :: ("(offset:".toList ++ ' ' :: (hexWord offset.toNat ++
          ')' :: (":".toList ++ ' ' :: decimal avg.toInt)))) := by
    rw [averageCycles_text, Stamp.line_eq, Stamp.line_eq]
    simp only [List.append_assoc, List.cons_append, List.nil_append]
  rw [selectsWord_iff (isWordChar_hexWord (hsmall v)) (by nofun), hline,
    wordRuns_append _ (by decide), wordRuns_append _ (by decide), wordRuns_append _ (by decide),
    wordRuns_append _ (by decide)]
  simp only [List.mem_append, hnone _ hstamp, hnone _ hfigure, hword _ address.isLt,
    hword _ (hsmall offset), hnone "(offset:".toList (by decide), false_or, or_false]
  rw [or_comm, BitVec.toNat_inj]

/-- A line that ends in a figure. -/
theorem lastWord_figure {l s : Line} {z : Int} (h : l = s ++ ' ' :: decimal z) :
    ' ' ∈ l ∧ lastWord l = decimal z := by
  subst h
  exact ⟨List.mem_append_right s List.mem_cons_self,
    lastWord_append s (decimal_ne_nil z) decimal_not_blank⟩

theorem averageCycles_line (t : Stamp) (address : BitVec 64) (offset avg : BitVec 32) :
    ∃ s, t.line (Record.averageCycles address offset avg).text.toList =
      s ++ ' ' :: decimal avg.toInt := by
  refine ⟨'[' :: t.text ++ [']', ' '] ++ ("Average clock cycles at address".toList ++
    ' ' :: (hexWord address.toNat ++ ' ' :: ("(offset:".toList ++ ' ' :: (hexWord offset.toNat ++
      ')' :: ":".toList)))), ?_⟩
  rw [Stamp.line_eq, averageCycles_text]
  simp only [List.append_assoc, List.cons_append]

theorem pageCycles_line (t : Stamp) (i cycles : BitVec 32) :
    ∃ s, t.line (Record.pageCycles i cycles).text.toList = s ++ ' ' :: decimal cycles.toInt := by
  refine ⟨'[' :: t.text ++ [']', ' '] ++ ("Cycles to ".toList ++ ("access page ".toList ++
    (decimal i.toInt ++ [':']))), ?_⟩
  rw [Stamp.line_eq, pageCycles_text]
  simp only [List.append_assoc, List.cons_append, List.nil_append]

/-- The phrase occurs once, so the digit after it is the one searched for. -/
theorem page_infix_iff {d d' : Char} {rest : Line} (hd : d' ≠ 'a') (hrest : 'a' ∉ rest) :
    "access page ".toList ++ [d] <:+: "Cycles to ".toList ++ ("access page ".toList ++ d' :: rest) ↔
      d = d' := by
  have hnone : ∀ l : Line, 'a' ∉ l → ¬ "access page ".toList ++ [d] <:+: l := fun l hl hin =>
    hl (hin.subset (List.mem_append_left _ (by decide)))
  have htail : 'a' ∉ "ge ".toList ++ d' :: rest := by
    rw [List.mem_append, List.mem_cons, not_or, not_or]
    exact ⟨by decide, Ne.symm hd, hrest⟩
  have hother : ¬ 'a' :: ("ccess page ".toList ++ [d]) <:+:
      "ccess p".toList ++ 'a' :: ("ge ".toList ++ d' :: rest) := by
    rw [infix_append_of_notMem (by decide), List.infix_cons_iff, not_or]
    refine ⟨fun hpre => ?_, hnone _ htail⟩
    have hc := (List.cons_prefix_cons.mp (List.cons_prefix_cons.mp hpre).2).1
    revert hc
    decide
  have hpattern : "access page ".toList ++ [d] = 'a' :: ("ccess page ".toList ++ [d]) := rfl
  have hpage : "access page ".toList ++ d' :: rest =
      'a' :: ("ccess p".toList ++ 'a' :: ("ge ".toList ++ d' :: rest)) := rfl
  rw [hpattern, infix_append_of_notMem (by decide), hpage, List.infix_cons_iff,
    or_iff_left hother, ← hpattern, ← hpage, List.prefix_append_right_inj, List.cons_prefix_cons]
  exact and_iff_left (List.nil_prefix)

theorem lastWord_selected {sel : Line → Bool} {figure : LogLine → Option (BitVec 32)} {first : Line}
    (hfirst : sel first = false) {ls : List LogLine}
    (hsel : ∀ i ∈ ls, sel i.line = (figure i).isSome)
    (hval : ∀ i ∈ ls, ∀ v, figure i = some v → ' ' ∈ i.line ∧ lastWord i.line = decimal v.toInt) :
    lastWord (output ((first :: ls.map (·.line)).filter sel)) =
      ((ls.filterMap figure).getLast?.map fun v => decimal v.toInt).getD [] := by
  rw [List.filter_cons_of_neg (by rw [hfirst]; nofun)]
  induction ls using List.reverseRecOn with
  | nil => exact echo_nil
  | append_singleton ls i ih =>
    have hi : i ∈ ls ++ [i] := List.mem_append_right ls (List.mem_singleton_self i)
    rw [List.map_append, List.filter_append, List.filterMap_append, List.map_singleton]
    cases hv : figure i with
    | none =>
      have hno : sel i.line = false := by rw [hsel i hi, hv]; rfl
      rw [List.filter_cons_of_neg (by rw [hno]; nofun), List.filterMap_cons_none hv]
      rw [List.filter_nil, List.filterMap_nil, List.append_nil, List.append_nil]
      exact ih (fun j hj => hsel j (List.mem_append_left _ hj))
        (fun j hj => hval j (List.mem_append_left _ hj))
    | some v =>
      have hyes : sel i.line = true := by rw [hsel i hi, hv]; rfl
      obtain ⟨hblank, hword⟩ := hval i hi v hv
      rw [List.filter_cons_of_pos hyes, List.filterMap_cons_some hv, List.filter_nil,
        List.filterMap_nil, List.getLast?_append, lastWord, afterLast_output _ hblank]
      exact hword

/-! ## Which lines are selected -/

/-- A phrase of letters and blanks stands in the line if and only if it stands in the text. -/
theorem selects_phrase {p : Line} (hp : p.head?.any offStamp = true) (hdot : '.' ∉ p) (t : Stamp)
    (text : Line) : selects p (t.line text) = true ↔ p <:+: text := by
  obtain ⟨c, hc, hoff⟩ := (Option.any_eq_true _ _).mp hp
  obtain ⟨s, rfl⟩ := List.head?_eq_some_iff.mp hc
  rw [selects_iff hdot]
  exact t.infix_line_iff hoff

theorem notMem_decimal {n : Int} {c : Char} (hd : c.isDigit = false) (hc : c ≠ '-') :
    c ∉ decimal n := by
  intro h
  rcases mem_decimal h with h | h
  · rw [hd] at h
    cases h
  · exact hc h

theorem notMem_hexWord {n : Nat} (hn : n < 2 ^ 64) {c : Char}
    (h : c ∉ "x0123456789abcdef".toList) : c ∉ hexWord n := fun hmem => h (mem_hexWord hn hmem)

/-- The two phrases are told apart by a letter. -/
theorem averageCycles_plain (address : BitVec 64) (offset avg : BitVec 32) :
    ¬ "access page ".toList <:+: (Record.averageCycles address offset avg).text.toList := by
  intro h
  have hsmall : offset.toNat < 2 ^ 64 := Nat.lt_trans offset.isLt (by decide)
  have hmem : 'p' ∈ (Record.averageCycles address offset avg).text.toList := h.subset (by decide)
  rw [averageCycles_text] at hmem
  simp only [List.mem_append, List.mem_cons, notMem_decimal (c := 'p') (by decide) (by decide),
    notMem_hexWord address.isLt (c := 'p') (by decide),
    notMem_hexWord hsmall (c := 'p') (by decide)] at hmem
  revert hmem
  decide

theorem pageCycles_plain (i t : BitVec 32) :
    ¬ "Average clock cycles".toList <:+: (Record.pageCycles i t).text.toList := by
  intro h
  have hmem : 'A' ∈ (Record.pageCycles i t).text.toList := h.subset (by decide)
  rw [pageCycles_text] at hmem
  simp only [List.mem_append, List.mem_cons,
    notMem_decimal (c := 'A') (by decide) (by decide)] at hmem
  revert hmem
  decide

theorem averageCycles_phrase (address : BitVec 64) (offset avg : BitVec 32) :
    "Average clock cycles".toList <:+: (Record.averageCycles address offset avg).text.toList := by
  have hphrase : "Average clock cycles at address".toList =
      "Average clock cycles".toList ++ " at address".toList := by decide
  rw [averageCycles_text, hphrase, List.append_assoc]
  exact (List.prefix_append _ _).isInfix

theorem pageCycles_phrase (i t : BitVec 32) :
    "access page ".toList <:+: (Record.pageCycles i t).text.toList := by
  rw [pageCycles_text]
  exact List.infix_append' _ _ _

/-- **`cache_parse` selects the lines with a figure.** -/
theorem cacheSelects_eq {i : LogLine} (hi : i.CycleLegible) (v : BitVec 32) :
    cacheSelects (hexWord v.toNat) i.line = (i.cacheFigure v).isSome := by
  cases i with
  | foreign l =>
    have hl : selects "Average clock cycles".toList l = false :=
      Bool.eq_false_iff.mpr fun h => hi.1 ((selects_iff (by decide)).mp h)
    show (selects _ l && _) = false
    rw [hl, Bool.false_and]
  | entry e =>
    obtain ⟨t, r⟩ := e
    have hphrase : selects "Average clock cycles".toList (t.line r.text.toList) = true ↔
        "Average clock cycles".toList <:+: r.text.toList :=
      selects_phrase (by decide) (by decide) t _
    -- a record without the phrase is no report
    have hplain : ¬ "Average clock cycles".toList <:+: r.text.toList →
        cacheSelects (hexWord v.toNat) (t.line r.text.toList) = (r.cacheFigure v).isSome := by
      intro hno
      rw [cacheSelects, Bool.eq_false_iff.mpr (mt hphrase.mp hno), Bool.false_and]
      cases r
      case averageCycles address offset avg => exact absurd (averageCycles_phrase _ _ _) hno
      all_goals rfl
    show cacheSelects _ (t.line r.text.toList) = (r.cacheFigure v).isSome
    rcases hi with ⟨address, offset, avg, hr⟩ | ⟨i, c, hr, -⟩ | ⟨hno, -⟩
    · obtain rfl : r = _ := hr
      rw [cacheSelects, hphrase.mpr (averageCycles_phrase _ _ _), Bool.true_and, Bool.eq_iff_iff,
        selectsWord_report, Record.cacheFigure]
      split
      case isTrue h => exact iff_of_true h rfl
      case isFalse h => exact iff_of_false h nofun
    · obtain rfl : r = _ := hr
      exact hplain (pageCycles_plain _ _)
    · exact hplain hno

theorem repr_digit {n : Nat} (h : n < 10) : (Nat.repr n).toList = [n.digitChar] := by
  rw [Nat.repr, String.toList_ofList, Nat.toDigits_of_lt_base h]

/-- The digit of a page. -/
theorem decimal_page {i : BitVec 32} (h : i.toNat < 10) :
    decimal i.toInt = [i.toNat.digitChar] := by
  have hint : i.toInt = i.toNat := BitVec.toInt_eq_toNat_of_lt (by omega)
  rw [hint]
  exact repr_digit h

/-- What `memory_parse` looks for. -/
def pagePattern (k : Fin 10) : Line := "access page ".toList ++ (Nat.repr k).toList

/-- **`memory_parse` selects the lines with a figure.** -/
theorem pageSelects_eq {i : LogLine} (hi : i.CycleLegible) (k : Fin 10) :
    selects (pagePattern k) i.line = (i.pageFigure k).isSome := by
  have hpattern : pagePattern k = "access page ".toList ++ [k.val.digitChar] := by
    unfold pagePattern
    rw [repr_digit k.isLt]
  have hdot : '.' ∉ pagePattern k := by
    rw [hpattern]
    revert k
    decide
  have hphrase : "access page ".toList <:+: pagePattern k := (List.prefix_append _ _).isInfix
  cases i with
  | foreign l =>
    exact Bool.eq_false_iff.mpr fun h => hi.2 (hphrase.trans ((selects_iff hdot).mp h))
  | entry e =>
    obtain ⟨t, r⟩ := e
    have hselects : selects (pagePattern k) (t.line r.text.toList) = true ↔
        pagePattern k <:+: r.text.toList := selects_phrase rfl hdot t _
    have hplain : ¬ "access page ".toList <:+: r.text.toList →
        selects (pagePattern k) (t.line r.text.toList) = (r.pageFigure k).isSome := by
      intro hno
      rw [Bool.eq_false_iff.mpr (mt hselects.mp fun h => hno (hphrase.trans h))]
      cases r
      case pageCycles i c => exact absurd (pageCycles_phrase _ _) hno
      all_goals rfl
    show selects _ (t.line r.text.toList) = (r.pageFigure k).isSome
    rcases hi with ⟨address, offset, avg, hr⟩ | ⟨i, c, hr, hi⟩ | ⟨-, hno⟩
    · obtain rfl : r = _ := hr
      exact hplain (averageCycles_plain _ _ _)
    · obtain rfl : r = _ := hr
      have hdigits : ∀ m n : Fin 10, m.val.digitChar = n.val.digitChar ↔ n = m := by decide
      have hletter : ∀ n : Fin 10, n.val.digitChar ≠ 'a' := by decide
      rw [Bool.eq_iff_iff, hselects, hpattern, pageCycles_text, decimal_page hi,
        List.singleton_append, page_infix_iff (hletter ⟨i.toNat, hi⟩), hdigits k ⟨i.toNat, hi⟩,
        Record.pageFigure, Fin.ext_iff]
      · split
        case isTrue h => exact iff_of_true h rfl
        case isFalse h => exact iff_of_false h nofun
      · rw [List.mem_cons, List.mem_cons, not_or, not_or]
        exact ⟨by decide, by decide, notMem_decimal (by decide) (by decide)⟩
    · exact hplain hno

theorem inserting_plain (t : Stamp) :
    (LogLine.entry ⟨t, .inserting⟩).CycleLegible := by
  have hplain : ¬ "Average clock cycles".toList <:+: Record.inserting.text.toList ∧
      ¬ "access page ".toList <:+: Record.inserting.text.toList := by decide +kernel
  exact Or.inr (Or.inr hplain)

theorem Record.cacheFigure_eq_some {v avg : BitVec 32} {r : Record}
    (h : r.cacheFigure v = some avg) : ∃ address offset, r = .averageCycles address offset avg := by
  cases r with
  | averageCycles address offset avg' =>
    rw [Record.cacheFigure] at h
    split at h
    case isTrue => exact ⟨address, offset, congrArg _ (Option.some.inj h)⟩
    case isFalse => cases h
  | _ => cases h

theorem Record.pageFigure_eq_some {k : Fin 10} {t : BitVec 32} {r : Record}
    (h : r.pageFigure k = some t) : ∃ i, r = .pageCycles i t := by
  cases r with
  | pageCycles i t' =>
    rw [Record.pageFigure] at h
    split at h
    case isTrue => exact ⟨i, congrArg _ (Option.some.inj h)⟩
    case isFalse => cases h
  | _ => cases h

/-- A line with a figure ends in it. -/
theorem LogLine.cacheFigure_line {v avg : BitVec 32} {i : LogLine}
    (h : i.cacheFigure v = some avg) : ∃ s, i.line = s ++ ' ' :: decimal avg.toInt := by
  obtain ⟨r, hr, h⟩ := Option.bind_eq_some_iff.mp h
  obtain ⟨address, offset, rfl⟩ := r.cacheFigure_eq_some h
  cases i with
  | foreign l => cases hr
  | entry e =>
    obtain ⟨t, r⟩ := e
    cases hr
    exact averageCycles_line t address offset avg

theorem LogLine.pageFigure_line {k : Fin 10} {t : BitVec 32} {i : LogLine}
    (h : i.pageFigure k = some t) : ∃ s, i.line = s ++ ' ' :: decimal t.toInt := by
  obtain ⟨r, hr, h⟩ := Option.bind_eq_some_iff.mp h
  obtain ⟨page, rfl⟩ := r.pageFigure_eq_some h
  cases i with
  | foreign l => cases hr
  | entry e =>
    obtain ⟨stamp, r⟩ := e
    cases hr
    exact pageCycles_line stamp page t

/-! ## What the script reads -/

/-- A log in which the lines since the insertion are reports or no matter. -/
structure CycleLog extends InsertedLog where
  since : List LogLine
  after_eq : after = since.map (·.line)
  legible : ∀ i ∈ since, i.CycleLegible

/-- `dmesg`, when `n` lines follow the insertion. -/
def CycleLog.read (g : CycleLog) (n : Nat) : List Line := g.dmesg ((g.since.take n).map (·.line))

/-- The lines that `grep -A100000000` passes on. -/
def CycleLog.seen (g : CycleLog) (n : Nat) : List LogLine := (g.since.take n).take 100000000

theorem CycleLog.sinceInsertion_read (g : CycleLog) (first second : Nat) :
    sinceInsertion (g.read first) (g.read second) =
      g.stamp.inserting :: (g.seen second).map (·.line) := by
  have hsub : ∀ n, (g.since.take n).map (·.line) ⊆ g.after := by
    intro n
    rw [g.after_eq]
    exact List.map_subset _ (List.take_subset n g.since)
  rw [CycleLog.read, CycleLog.read, g.sinceInsertion_dmesg (hsub first) (hsub second),
    CycleLog.seen, List.map_take (l := g.since.take second)]

theorem CycleLog.legible_of_mem_seen (g : CycleLog) {n : Nat} {i : LogLine} (h : i ∈ g.seen n) :
    i.CycleLegible := g.legible i (List.mem_of_mem_take (List.mem_of_mem_take h))

/-- **What `cache_parse` returns**: the figure reported last for the offset, or nothing. -/
theorem cacheParse_eq (g : CycleLog) (first second : Nat) (v : BitVec 32) :
    cacheParse (g.read first) (g.read second) (hexWord v.toNat) =
      (((g.seen second).filterMap (·.cacheFigure v)).getLast?.map
        fun avg => decimal avg.toInt).getD [] := by
  have hfilter : ∀ ls, grepWord (hexWord v.toNat) (grep "Average clock cycles".toList ls) =
      ls.filter (cacheSelects (hexWord v.toNat)) := fun ls =>
    List.filter_filter.trans (List.filter_congr fun l _ => Bool.and_comm _ _)
  have hfirst : cacheSelects (hexWord v.toNat) g.stamp.inserting = false :=
    cacheSelects_eq (inserting_plain g.stamp) v
  rw [cacheParse, g.sinceInsertion_read, hfilter]
  refine lastWord_selected hfirst (fun i hi => cacheSelects_eq (g.legible_of_mem_seen hi) v) ?_
  intro i _ avg havg
  obtain ⟨s, hs⟩ := i.cacheFigure_line havg
  exact lastWord_figure hs

/-- **What `memory_parse` returns**: the figure reported last for the page, or nothing. -/
theorem memoryParse_eq (g : CycleLog) (first second : Nat) (k : Fin 10) :
    memoryParse (g.read first) (g.read second) (Nat.repr k).toList =
      (((g.seen second).filterMap (·.pageFigure k)).getLast?.map
        fun t => decimal t.toInt).getD [] := by
  have hfirst : selects (pagePattern k) g.stamp.inserting = false :=
    pageSelects_eq (inserting_plain g.stamp) k
  rw [memoryParse, g.sinceInsertion_read]
  refine lastWord_selected hfirst (fun i hi => pageSelects_eq (g.legible_of_mem_seen hi) k) ?_
  intro i _ t ht
  obtain ⟨s, hs⟩ := i.pageFigure_line ht
  exact lastWord_figure hs

end EcrToolkit
