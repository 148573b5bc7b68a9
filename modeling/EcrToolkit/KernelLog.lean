import EcrToolkit.Records
import EcrToolkit.TextTools
import Mathlib.Data.List.TakeDrop

/-!
# The kernel log, and the script's view of it

`dmesg` prints a line for each record, with a time stamp in brackets in front.
`ecr.sh` cuts the log at the insertion of the module: it takes the time stamp of
the last line with `Inserting` and has `grep` print what follows a line with that
stamp (`sinceInsertion`).  The parse functions then look for a label in that part.
-/
namespace EcrToolkit

open TextTools

/-! ## Lines -/

/-- A time stamp: digits and a dot, padded with blanks on the left. -/
structure Stamp where
  pad : Nat
  digits : Line
  ne : digits ≠ []
  chars : ∀ c ∈ digits, c.isDigit = true ∨ c = '.'

/-- What stands between the brackets. -/
def Stamp.text (t : Stamp) : Line := List.replicate t.pad ' ' ++ t.digits

/-- The line of a record. -/
def Stamp.line (t : Stamp) (text : Line) : Line := '[' :: (t.text ++ ']' :: ' ' :: text)

/-- A record of the log. -/
structure Entry where
  stamp : Stamp
  record : Record

def Entry.line (e : Entry) : Line := e.stamp.line e.record.text.toList

/-- The character does not occur in the brackets, nor is it one of them. -/
def offStamp (c : Char) : Bool :=
  !(c.isDigit || c == '.' || c == ' ' || c == '[' || c == ']')

/-- The time stamp `9.n`. -/
def stampAt (n : Nat) : Stamp where
  pad := 3
  digits := '9' :: '.' :: Nat.toDigits 10 n
  ne := by nofun
  chars := by
    intro c hc
    rcases List.mem_cons.mp hc with rfl | hc
    · exact Or.inl rfl
    · rcases List.mem_cons.mp hc with rfl | hc
      · exact Or.inr rfl
      · exact Or.inl (Nat.isDigit_of_mem_toDigits (by decide) (by decide) hc)

theorem Stamp.notMem_text (t : Stamp) {c : Char} (hd : c.isDigit = false) (hdot : c ≠ '.')
    (hblank : c ≠ ' ') : c ∉ t.text := by
  intro hc
  rcases List.mem_append.mp hc with hc | hc
  · exact hblank (List.eq_of_mem_replicate hc)
  · rcases t.chars c hc with h | h
    · rw [hd] at h
      cases h
    · exact hdot h

theorem Stamp.line_eq (t : Stamp) (text : Line) :
    t.line text = ('[' :: t.text ++ [']', ' ']) ++ text := by
  rw [Stamp.line, List.cons_append, List.cons_append, List.append_assoc]
  rfl

/-- What begins with a letter is found in the line if and only if it is found in the text. -/
theorem Stamp.infix_line_iff (t : Stamp) {c : Char} {p text : Line} (hc : offStamp c = true) :
    c :: p <:+: t.line text ↔ c :: p <:+: text := by
  rw [Stamp.line_eq]
  refine infix_append_of_notMem fun hmem => ?_
  simp only [offStamp, Bool.not_eq_true', Bool.or_eq_false_iff, beq_eq_false_iff_ne] at hc
  obtain ⟨⟨⟨⟨hd, hdot⟩, hblank⟩, hopen⟩, hclose⟩ := hc
  rcases List.mem_append.mp hmem with hmem | hmem
  · rcases List.mem_cons.mp hmem with hmem | hmem
    · exact hopen hmem
    · exact t.notMem_text hd hdot hblank hmem
  · rcases List.mem_cons.mp hmem with hmem | hmem
    · exact hclose hmem
    · exact hblank (List.mem_singleton.mp hmem)

/-! ## The part since the insertion -/

/-- `dmesg | grep Inserting | tail -1 | awk -F '[][]' '{print $2}'`, as the words of an
unquoted substitution. -/
def timestamp (dmesg : List Line) : List Line :=
  words (field (fun c => c == '[' || c == ']') 2 (lastLine (grep "Inserting".toList dmesg)))

/-- `dmesg | grep -A100000000 ...`, with the time stamp taken from `dmesg` and the log
read again as `dmesg'`.  Without a pattern, or with file names after it, `grep` finds
nothing. -/
def sinceInsertion (dmesg dmesg' : List Line) : List Line :=
  match timestamp dmesg with
  | [ts] => grepAfter ts 100000000 dmesg'
  | _ => []

/-- `wall_parse`: the text after the last `": "` of the last line with the label. -/
def wallParse (dmesg dmesg' : List Line) (name : Line) : Line :=
  echo (afterLast [':', ' '] (lastLine (grep name (sinceInsertion dmesg dmesg'))))

/-- `parsed=${dm##* }; echo $parsed`. -/
def lastWord (dm : Line) : Line := echo (afterLast [' '] dm)

/-- `nop_parse`: the last word of the line after the last line with the label. -/
def nopParse (dmesg dmesg' : List Line) (name : Line) : Line :=
  lastWord (lastLine (grepAfter name 1 (sinceInsertion dmesg dmesg')))

/-- A log with the insertion of the module: arbitrary earlier lines, the line of the
insertion, and what was logged since.  No line after it contains `Inserting`, and no
other line its time stamp. -/
structure InsertedLog where
  earlier : List Line
  stamp : Stamp
  after : List Line
  unique : ∀ l ∈ earlier ++ after, selects stamp.digits l = false
  last : ∀ l ∈ after, selects "Inserting".toList l = false

/-- The line of the insertion. -/
def Stamp.inserting (t : Stamp) : Line := t.line Record.inserting.text.toList

/-- What `dmesg` prints when `logged` is what has been logged since the insertion. -/
def InsertedLog.dmesg (g : InsertedLog) (logged : List Line) : List Line :=
  g.earlier ++ g.stamp.inserting :: logged

/-- What `dmesg` prints in the end. -/
def InsertedLog.lines (g : InsertedLog) : List Line := g.dmesg g.after

theorem Stamp.words_text (t : Stamp) : words t.text = [t.digits] := by
  have hdigits : ∀ c ∈ t.digits, isBlank c = false := by
    intro c hc
    rcases t.chars c hc with h | rfl
    · by_contra hb
      simp only [isBlank, Bool.not_eq_false, Bool.or_eq_true, beq_iff_eq] at hb
      rcases hb with (rfl | rfl) | rfl <;> revert h <;> decide
    · decide
  unfold Stamp.text
  induction t.pad with
  | zero => exact words_singleton t.ne hdigits
  | succ n ih =>
    rw [List.replicate_succ, List.cons_append, words_blank (by decide)]
    exact ih

/-- **The time stamp** of the last insertion. -/
theorem InsertedLog.timestamp_dmesg (g : InsertedLog) {logged : List Line}
    (h : logged ⊆ g.after) : timestamp (g.dmesg logged) = [g.stamp.digits] := by
  have hsel : selects "Inserting".toList g.stamp.inserting = true := by
    refine selects_of_infix ⟨'[' :: (g.stamp.text ++ [']', ' ']), " ECR kernel object".toList, ?_⟩
    rw [Stamp.inserting, Stamp.line_eq, List.append_assoc]
    rfl
  have hbracket : ∀ x ∈ g.stamp.text, (x == '[' || x == ']') = false := by
    intro x hx
    by_contra hb
    simp only [Bool.not_eq_false, Bool.or_eq_true, beq_iff_eq] at hb
    rcases hb with rfl | rfl
    · exact g.stamp.notMem_text (by decide) (by decide) (by decide) hx
    · exact g.stamp.notMem_text (by decide) (by decide) (by decide) hx
  rw [timestamp, InsertedLog.dmesg, lastLine_grep g.earlier hsel fun l hl => g.last l (h hl),
    Stamp.inserting,
    Stamp.line, ← List.nil_append ('[' :: _)]
  rw [field_two (by nofun) (by decide) hbracket (by decide)]
  exact g.stamp.words_text

/-- **The part since the insertion**, up to 100000000 lines. -/
theorem InsertedLog.sinceInsertion_dmesg (g : InsertedLog) {logged logged' : List Line}
    (h : logged ⊆ g.after) (h' : logged' ⊆ g.after) :
    sinceInsertion (g.dmesg logged) (g.dmesg logged') =
      g.stamp.inserting :: logged'.take 100000000 := by
  have hsel : selects g.stamp.digits g.stamp.inserting = true := by
    refine selects_of_infix ⟨'[' :: List.replicate g.stamp.pad ' ',
      ']' :: ' ' :: Record.inserting.text.toList, ?_⟩
    rw [Stamp.inserting, Stamp.line, Stamp.text]
    simp only [List.cons_append, List.append_assoc]
  have hpre : ∀ l ∈ g.earlier, selects g.stamp.digits l = false := fun l hl =>
    g.unique l (List.mem_append_left _ hl)
  have hpost : ∀ l ∈ logged', selects g.stamp.digits l = false := fun l hl =>
    g.unique l (List.mem_append_right _ (h' hl))
  rw [sinceInsertion, g.timestamp_dmesg h]
  exact grepAfter_of_single hpre hsel hpost

/-! ## Labels -/

/-- `NOP_X:` and `WALL_X:`, for `k` the prefix. -/
def label (k x : Line) : Line := k ++ x ++ [':']

/-- The prefix does not stand in a time stamp and occurs only once in `k ++ y`; neither
a colon nor a dot does. -/
def LabelSafe (k y : Line) : Prop :=
  k.head?.any offStamp = true ∧ ':' ∉ k ++ y ∧ '.' ∉ k ++ y ∧
    ∀ s ∈ (k ++ y).tails, k <+: s → s = k ++ y

instance (k y : Line) : Decidable (LabelSafe k y) := inferInstanceAs (Decidable (_ ∧ _))

/-- The first letter of the prefix. -/
theorem LabelSafe.head {k x : Line} (h : LabelSafe k x) :
    ∃ c s, k = c :: s ∧ offStamp c = true := by
  obtain ⟨c, hc, hoff⟩ := (Option.any_eq_true _ _).mp h.1
  obtain ⟨s, hs⟩ := List.head?_eq_some_iff.mp hc
  exact ⟨c, s, hs, hoff⟩

theorem LabelSafe.dot_notMem {k x : Line} (h : LabelSafe k x) : '.' ∉ label k x := by
  intro hmem
  rcases List.mem_append.mp hmem with hmem | hmem
  · exact h.2.2.1 hmem
  · exact absurd (List.mem_singleton.mp hmem) (by decide)

/-- The label stands in the line if and only if it stands in the text. -/
theorem LabelSafe.selects_line {k x : Line} (h : LabelSafe k x) (t : Stamp) (text : Line) :
    selects (label k x) (t.line text) = true ↔ label k x <:+: text := by
  obtain ⟨c, s, hk, hc⟩ := h.head
  rw [selects_iff h.dot_notMem, hk]
  exact t.infix_line_iff hc

/-- A line with the label of `y` is not selected by the label of `x`. -/
theorem selects_label_of_ne (t : Stamp) {k x y rest : Line} (hx : LabelSafe k x)
    (hy : LabelSafe k y) (hrest : ':' ∉ rest) (hne : x ≠ y) :
    selects (label k x) (t.line (label k y ++ rest)) = false := by
  refine Bool.eq_false_iff.mpr fun h => hne ?_
  have htext := (hx.selects_line t _).mp h
  have heq : label k y ++ rest = k ++ y ++ ':' :: rest := by
    rw [label, List.append_assoc]
    rfl
  rw [heq] at htext
  exact eq_of_label_infix hy.2.1 hrest hy.2.2.2 htext

theorem selects_label_self (t : Stamp) (k x rest : Line) :
    selects (label k x) (t.line (label k x ++ rest)) = true := by
  refine selects_of_infix ⟨'[' :: t.text ++ [']', ' '], rest, ?_⟩
  rw [Stamp.line_eq, List.append_assoc]

/-- A text in which the prefix does not stand. -/
theorem selects_label_of_absent (t : Stamp) {k x text : Line} (hx : LabelSafe k x)
    (htext : ¬ k <:+: text) : selects (label k x) (t.line text) = false := by
  refine Bool.eq_false_iff.mpr fun h => htext ?_
  have hk : k <+: label k x := by
    rw [label, List.append_assoc]
    exact List.prefix_append k (x ++ [':'])
  exact hk.isInfix.trans ((hx.selects_line t text).mp h)

/-! ## Values -/

theorem Stamp.lastWord_line (t : Stamp) (text : Line) : lastWord (t.line text) = lastWord text := by
  have hline : t.line text = ('[' :: t.text ++ [']']) ++ ' ' :: text := by
    rw [Stamp.line, List.cons_append, List.cons_append, List.append_assoc]
    rfl
  rw [lastWord, hline, afterLast_singleton]
  rfl

theorem lastWord_append (s : Line) {w : Line} (hne : w ≠ []) (hw : ∀ c ∈ w, isBlank c = false) :
    lastWord (s ++ ' ' :: w) = w := by
  rw [lastWord, afterLast_singleton, afterLast_of_notMem fun h => absurd (hw ' ' h) (by decide)]
  exact echo_singleton hne hw

theorem lastWord_self {w : Line} (hne : w ≠ []) (hw : ∀ c ∈ w, isBlank c = false) :
    lastWord w = w := by
  rw [lastWord, afterLast_of_notMem fun h => absurd (hw ' ' h) (by decide)]
  exact echo_singleton hne hw

theorem lastWord_blank (s : Line) : lastWord (s ++ [' ']) = [] := by
  rw [lastWord, afterLast_singleton]
  exact echo_nil

theorem digit_of_mem_repr {n : Nat} {c : Char} (h : c ∈ (Nat.repr n).toList) :
    c.isDigit = true := by
  rw [Nat.toList_repr] at h
  exact Nat.isDigit_of_mem_toDigits (by decide) (by decide) h

theorem repr_zero : (Nat.repr 0).toList = ['0'] := by decide +kernel

theorem repr_inj {m n : Nat} : (Nat.repr m).toList = (Nat.repr n).toList ↔ m = n := by
  refine ⟨fun h => ?_, fun h => h ▸ rfl⟩
  rw [Nat.toList_repr, Nat.toList_repr] at h
  have hm := Nat.ofDigitChars_toDigits (b := 10) (n := m) (by decide) (by decide)
  rw [h, Nat.ofDigitChars_toDigits (by decide) (by decide)] at hm
  exact hm.symm

theorem repr_ne_nil (n : Nat) : (Nat.repr n).toList ≠ [] := by
  rw [Nat.toList_repr]
  exact Nat.toDigits_ne_nil

theorem repr_notMem {n : Nat} {c : Char} (hc : c.isDigit = false) : c ∉ (Nat.repr n).toList := by
  intro h
  rw [digit_of_mem_repr h] at hc
  cases hc

theorem repr_not_blank {n : Nat} : ∀ c ∈ (Nat.repr n).toList, isBlank c = false := by
  intro c hc
  by_contra hb
  simp only [isBlank, Bool.not_eq_false, Bool.or_eq_true, beq_iff_eq] at hb
  rcases hb with (rfl | rfl) | rfl
  · exact repr_notMem (by decide) hc
  · exact repr_notMem (by decide) hc
  · exact repr_notMem (by decide) hc

end EcrToolkit
