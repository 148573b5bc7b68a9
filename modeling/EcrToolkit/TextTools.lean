import Mathlib.Data.List.Basic
import Mathlib.Data.List.Infix

/-!
# Text tools

The parts of `grep`, `tail`, `awk` and the shell that scripts decode a log with, on
lines as lists of characters.  A pattern is a basic regular expression in which `.`
is the only character with a meaning of its own; a file is the list of its lines,
without the newlines.
-/
namespace TextTools

abbrev Line := List Char

/-! ## grep -/

/-- The pattern matches at the beginning of the line. -/
def matchesHere : Line → Line → Bool
  | [], _ => true
  | _ :: _, [] => false
  | p :: ps, c :: cs => (p == '.' || p == c) && matchesHere ps cs

/-- The pattern matches somewhere in the line. -/
def selects (p : Line) : Line → Bool
  | [] => matchesHere p []
  | c :: cs => matchesHere p (c :: cs) || selects p cs

/-- `grep p`. -/
def grep (p : Line) (ls : List Line) : List Line := ls.filter (selects p)

/-- `grep p -A n`.  `left` lines of context are still to be printed; a line of dashes
comes before a selected line if something was `printed` already and lines were
`skipped` since. -/
def grepAfterFrom (p : Line) (n : Nat) : (printed skipped : Bool) → (left : Nat) →
    List Line → List Line
  | _, _, _, [] => []
  | printed, skipped, left, l :: ls =>
    if selects p l then
      (if printed && skipped then [['-', '-']] else []) ++
        l :: grepAfterFrom p n true false n ls
    else
      match left with
      | left + 1 => l :: grepAfterFrom p n printed skipped left ls
      | 0 => grepAfterFrom p n printed true 0 ls

@[inherit_doc grepAfterFrom]
def grepAfter (p : Line) (n : Nat) (ls : List Line) : List Line :=
  grepAfterFrom p n false false 0 ls

theorem matchesHere_append (p s : Line) : matchesHere p (p ++ s) = true := by
  induction p with
  | nil => cases s <;> rfl
  | cons c p ih =>
    show ((c == '.' || c == c) && matchesHere p (p ++ s)) = true
    rw [ih, beq_self_eq_true, Bool.or_true, Bool.and_self]

/-- What stands in the line is selected. -/
theorem selects_of_infix {p l : Line} (h : p <:+: l) : selects p l = true := by
  obtain ⟨s, t, rfl⟩ := h
  rw [List.append_assoc]
  induction s with
  | nil =>
    have hhere := matchesHere_append p t
    cases hl : p ++ t with
    | nil =>
      rw [hl] at hhere
      exact hhere
    | cons c cs =>
      rw [hl] at hhere
      show (matchesHere p (c :: cs) || selects p cs) = true
      rw [hhere, Bool.true_or]
  | cons c s ih =>
    show (matchesHere p (c :: (s ++ (p ++ t))) || selects p (s ++ (p ++ t))) = true
    rw [ih, Bool.or_true]

theorem prefix_of_matchesHere {p l : Line} (hp : '.' ∉ p) (h : matchesHere p l = true) :
    p <+: l := by
  induction p generalizing l with
  | nil => exact List.nil_prefix
  | cons c p ih =>
    cases l with
    | nil => cases h
    | cons d l =>
      have hdot : (c == '.') = false := beq_false_of_ne fun he => hp (by simp [he])
      have hh : ((c == '.' || c == d) && matchesHere p l) = true := h
      rw [hdot, Bool.false_or, Bool.and_eq_true, beq_iff_eq] at hh
      obtain ⟨rfl, hrest⟩ := hh
      exact List.cons_prefix_cons.mpr ⟨rfl, ih (fun hm => hp (List.mem_cons_of_mem c hm)) hrest⟩

/-- A pattern without a `.` selects the lines it stands in. -/
theorem selects_iff {p l : Line} (hp : '.' ∉ p) : selects p l = true ↔ p <:+: l := by
  refine ⟨fun h => ?_, selects_of_infix⟩
  induction l with
  | nil => exact (prefix_of_matchesHere hp h).isInfix
  | cons c l ih =>
    have hh : (matchesHere p (c :: l) || selects p l) = true := h
    rcases Bool.or_eq_true_iff.mp hh with hhere | hrest
    · exact (prefix_of_matchesHere hp hhere).isInfix
    · exact List.infix_cons_iff.mpr (Or.inr (ih hrest))

theorem selects_eq_false_iff {p l : Line} (hp : '.' ∉ p) : selects p l = false ↔ ¬ p <:+: l := by
  rw [← selects_iff hp, Bool.not_eq_true]

/-- A character that the pattern does not have parts a line in two. -/
theorem infix_append_cons {c : Char} {p s t : Line} (hc : c ∉ p) (h : p <:+: s ++ c :: t) :
    p <:+: s ∨ p <:+: t := by
  have hstarts : ∀ {s : Line}, p <+: s ++ c :: t → p <+: s := by
    intro s hp
    rcases List.prefix_or_prefix_of_prefix hp (List.prefix_append s _) with hps | ⟨r, hr⟩
    · exact hps
    · rw [← hr, List.prefix_append_right_inj] at hp
      rcases List.prefix_cons_iff.mp hp with rfl | ⟨r', rfl, -⟩
      · rw [← hr, List.append_nil]
      · exact absurd (hr ▸ List.mem_append_right s List.mem_cons_self) hc
  induction s with
  | nil =>
    rcases List.infix_cons_iff.mp h with h | h
    · exact Or.inl (hstarts h).isInfix
    · exact Or.inr h
  | cons d s ih =>
    rw [List.cons_append] at h
    rcases List.infix_cons_iff.mp h with h | h
    · exact Or.inl (hstarts h).isInfix
    · exact (ih h).imp_left List.infix_cons

/-- Nothing is found before the first character of the pattern occurs. -/
theorem infix_append_of_notMem {c : Char} {p s t : Line} (hc : c ∉ s) :
    c :: p <:+: s ++ t ↔ c :: p <:+: t := by
  induction s with
  | nil => rfl
  | cons d s ih =>
    rw [List.mem_cons, not_or] at hc
    rw [List.cons_append, List.infix_cons_iff, ih hc.2, List.cons_prefix_cons]
    exact ⟨fun h => h.resolve_left fun h => hc.1 h.1, Or.inr⟩

/-- A line that does not have the first character of the pattern is not selected. -/
theorem selects_of_notMem {c : Char} {p l : Line} (hp : '.' ∉ c :: p) (hc : c ∉ l) :
    selects (c :: p) l = false := by
  rw [selects_eq_false_iff hp]
  exact fun h => hc (h.subset (List.mem_cons_self ..))

/-! ## The context of a selected line -/

section
variable {p : Line} {n : Nat} (printed skipped : Bool)

theorem grepAfterFrom_selected (left : Nat) {l : Line} (ls : List Line) (hl : selects p l = true) :
    grepAfterFrom p n printed skipped left (l :: ls) =
      (if printed && skipped then [['-', '-']] else []) ++
        l :: grepAfterFrom p n true false n ls := by
  show (if selects p l = true then _ else _) = _
  rw [if_pos hl]

theorem grepAfterFrom_context (left : Nat) {l : Line} (ls : List Line)
    (hl : selects p l = false) :
    grepAfterFrom p n printed skipped (left + 1) (l :: ls) =
      l :: grepAfterFrom p n printed skipped left ls := by
  show (if selects p l = true then _ else _) = _
  rw [hl]
  rfl

theorem grepAfterFrom_skip {l : Line} (ls : List Line) (hl : selects p l = false) :
    grepAfterFrom p n printed skipped 0 (l :: ls) = grepAfterFrom p n printed true 0 ls := by
  show (if selects p l = true then _ else _) = _
  rw [hl]
  rfl

end

/-- Without a further match only the context is printed. -/
theorem grepAfterFrom_of_none {p : Line} {n : Nat} (printed skipped : Bool) (left : Nat)
    {ls : List Line} (h : ∀ l ∈ ls, selects p l = false) :
    grepAfterFrom p n printed skipped left ls = ls.take left := by
  induction ls generalizing skipped left with
  | nil => rw [List.take_nil]; rfl
  | cons l ls ih =>
    obtain ⟨hl, hls⟩ := List.forall_mem_cons.mp h
    cases left with
    | zero =>
      rw [grepAfterFrom_skip printed skipped ls hl]
      exact ih true 0 hls
    | succ left =>
      rw [grepAfterFrom_context printed skipped left ls hl]
      exact congrArg (l :: ·) (ih skipped left hls)

/-- The first selected line is printed first, with its context. -/
theorem grepAfterFrom_first {p : Line} {n : Nat} (skipped : Bool) {pre post : List Line} {l : Line}
    (hpre : ∀ l ∈ pre, selects p l = false) (hl : selects p l = true) :
    grepAfterFrom p n false skipped 0 (pre ++ l :: post) =
      l :: grepAfterFrom p n true false n post := by
  induction pre generalizing skipped with
  | nil =>
    exact grepAfterFrom_selected false skipped 0 post hl
  | cons d pre ih =>
    obtain ⟨hd, hrest⟩ := List.forall_mem_cons.mp hpre
    rw [List.cons_append, grepAfterFrom_skip false skipped _ hd]
    exact ih true hrest

/-- **What is printed of the lines that follow** depends on the lines before them only
through three values. -/
theorem grepAfterFrom_split (p : Line) (n : Nat) (printed skipped : Bool) (left : Nat)
    (before : List Line) : ∃ printed' skipped' left', (left ≤ n → left' ≤ n) ∧
      ∀ after, grepAfterFrom p n printed skipped left (before ++ after) =
        grepAfterFrom p n printed skipped left before ++
          grepAfterFrom p n printed' skipped' left' after := by
  induction before generalizing printed skipped left with
  | nil => exact ⟨printed, skipped, left, id, fun after => rfl⟩
  | cons d before ih =>
    cases hd : selects p d with
    | true =>
      obtain ⟨printed', skipped', left', hleft, hsplit⟩ := ih true false n
      refine ⟨printed', skipped', left', fun _ => hleft (Nat.le_refl n), fun after => ?_⟩
      rw [List.cons_append, grepAfterFrom_selected printed skipped left _ hd, hsplit,
        grepAfterFrom_selected printed skipped left _ hd, List.append_assoc, List.cons_append]
    | false =>
      cases left with
      | zero =>
        obtain ⟨printed', skipped', left', hleft, hsplit⟩ := ih printed true 0
        refine ⟨printed', skipped', left', hleft, fun after => ?_⟩
        rw [List.cons_append, grepAfterFrom_skip printed skipped _ hd, hsplit,
          grepAfterFrom_skip printed skipped _ hd]
      | succ left =>
        obtain ⟨printed', skipped', left', hleft, hsplit⟩ := ih printed skipped left
        refine ⟨printed', skipped', left', fun hle => hleft (Nat.le_of_succ_le hle),
          fun after => ?_⟩
        rw [List.cons_append, grepAfterFrom_context printed skipped left _ hd, hsplit,
          grepAfterFrom_context printed skipped left _ hd, List.cons_append]

/-- A selected line is printed, and the lines after it are its context. -/
theorem grepAfterFrom_append {p : Line} {n : Nat} (printed skipped : Bool) (left : Nat)
    (before after : List Line) {l : Line} (hl : selects p l = true) :
    ∃ out, grepAfterFrom p n printed skipped left (before ++ l :: after) =
      out ++ l :: grepAfterFrom p n true false n after := by
  obtain ⟨printed', skipped', left', -, hsplit⟩ :=
    grepAfterFrom_split p n printed skipped left before
  rw [hsplit, grepAfterFrom_selected printed' skipped' left' after hl, ← List.append_assoc]
  exact ⟨_, rfl⟩

/-- `grep p -A n` from the only selected line. -/
theorem grepAfter_of_single {p : Line} {n : Nat} {pre post : List Line} {l : Line}
    (hpre : ∀ l ∈ pre, selects p l = false) (hl : selects p l = true)
    (hpost : ∀ l ∈ post, selects p l = false) :
    grepAfter p n (pre ++ l :: post) = l :: post.take n := by
  rw [grepAfter, grepAfterFrom_first false hpre hl, grepAfterFrom_of_none true false n hpost]

/-! ## tail -/

/-- `tail -1`, captured by the shell. -/
def lastLine (ls : List Line) : Line := ls.getLast?.getD []

theorem lastLine_append_singleton (ls : List Line) (l : Line) : lastLine (ls ++ [l]) = l := by
  rw [lastLine, List.getLast?_concat]
  rfl

/-- The last selected line. -/
theorem lastLine_grep {p : Line} (before : List Line) {after : List Line} {l : Line}
    (hl : selects p l = true) (hafter : ∀ l ∈ after, selects p l = false) :
    lastLine (grep p (before ++ l :: after)) = l := by
  have hnone : after.filter (selects p) = [] :=
    List.filter_eq_nil_iff.mpr fun a ha => by rw [hafter a ha]; decide
  rw [grep, List.filter_append, List.filter_cons_of_pos hl, hnone]
  exact lastLine_append_singleton _ l

/-- The last line of the last selected line and the one after it. -/
theorem lastLine_grepAfter_one {p : Line} (before : List Line) {after : List Line} {l : Line}
    (hl : selects p l = true) (hafter : ∀ l ∈ after, selects p l = false) :
    lastLine (grepAfter p 1 (before ++ l :: after)) = after.head?.getD l := by
  obtain ⟨out, hout⟩ := grepAfterFrom_append (n := 1) false false 0 before after hl
  rw [grepAfter, hout, grepAfterFrom_of_none true false 1 hafter]
  cases after with
  | nil => exact lastLine_append_singleton out l
  | cons a after =>
    show lastLine (out ++ [l, a]) = a
    rw [show out ++ [l, a] = (out ++ [l]) ++ [a] by simp]
    exact lastLine_append_singleton _ a

theorem lastLine_grep_of_none {p : Line} {ls : List Line} (h : ∀ l ∈ ls, selects p l = false) :
    lastLine (grep p ls) = [] := by
  have hnone : grep p ls = [] :=
    List.filter_eq_nil_iff.mpr fun a ha => by rw [h a ha]; decide
  rw [hnone]
  rfl

/-! ## grep -o -/

/-- `[a-fA-F0-9]`. -/
def isHexDigit (c : Char) : Bool :=
  c.isDigit || ('a' ≤ c && c ≤ 'f') || ('A' ≤ c && c ≤ 'F')

/-- The parts of a line that match `0x[a-fA-F0-9]*`, from left to right, each as long as
possible; `some m` is the match that is being read. -/
def hexMatchesFrom : Option Line → Line → List Line
  | none, '0' :: 'x' :: cs => hexMatchesFrom (some ['0', 'x']) cs
  | none, _ :: cs => hexMatchesFrom none cs
  | none, [] => []
  | some m, c :: cs =>
    if isHexDigit c then hexMatchesFrom (some (m ++ [c])) cs else m :: hexMatchesFrom none cs
  | some m, [] => [m]

/-- `grep -o "0x[a-fA-F0-9]*"`. -/
def grepHex (ls : List Line) : List Line := ls.flatMap (hexMatchesFrom none)

theorem hexMatchesFrom_skip {c : Char} {cs : Line} (h : ¬ ['0', 'x'] <+: c :: cs) :
    hexMatchesFrom none (c :: cs) = hexMatchesFrom none cs := by
  rw [hexMatchesFrom]
  rintro cs' rfl rfl
  exact h ⟨cs', rfl⟩

/-- A match goes on. -/
theorem hexMatchesFrom_digits {ds : Line} (hds : ∀ d ∈ ds, isHexDigit d = true) (m t : Line) :
    hexMatchesFrom (some m) (ds ++ t) = hexMatchesFrom (some (m ++ ds)) t := by
  induction ds generalizing m with
  | nil => rw [List.nil_append, List.append_nil]
  | cons d ds ih =>
    obtain ⟨hd, hrest⟩ := List.forall_mem_cons.mp hds
    rw [List.cons_append, hexMatchesFrom, if_pos hd, ih hrest, List.append_assoc]
    rfl

/-- A match ends. -/
theorem hexMatchesFrom_end {c : Char} (hc : isHexDigit c = false) (m t : Line) :
    hexMatchesFrom (some m) (c :: t) = m :: hexMatchesFrom none t := by
  rw [hexMatchesFrom, hc]
  rfl

theorem hexMatchesFrom_some_ne_nil (m t : Line) : hexMatchesFrom (some m) t ≠ [] := by
  induction t generalizing m with
  | nil => exact nofun
  | cons c t ih =>
    rw [hexMatchesFrom]
    split
    · exact ih (m ++ [c])
    · exact List.cons_ne_nil m _

/-- What comes before the `x` of a match. -/
theorem hexMatchesFrom_append {s : Line} (hs : 'x' ∉ s) (t : Line) :
    hexMatchesFrom none (s ++ '0' :: 'x' :: t) = hexMatchesFrom (some ['0', 'x']) t := by
  induction s with
  | nil => rfl
  | cons c s ih =>
    rw [List.mem_cons, not_or] at hs
    rw [List.cons_append, hexMatchesFrom_skip, ih hs.2]
    intro hpre
    cases s with
    | nil => exact absurd (List.cons_prefix_cons.mp (List.cons_prefix_cons.mp hpre).2).1 (by decide)
    | cons d s =>
      have hd := (List.cons_prefix_cons.mp (List.cons_prefix_cons.mp hpre).2).1
      exact hs.2 (hd ▸ List.mem_cons_self)

/-- **Where `grep -o` finds nothing.** -/
theorem hexMatchesFrom_eq_nil_iff {l : Line} :
    hexMatchesFrom none l = [] ↔ ¬ ['0', 'x'] <:+: l := by
  induction l with
  | nil => exact iff_of_true rfl fun h => absurd (List.infix_nil.mp h) nofun
  | cons c l ih =>
    rw [List.infix_cons_iff, not_or]
    by_cases hpre : ['0', 'x'] <+: c :: l
    · obtain ⟨t, rfl⟩ := List.cons_prefix_cons.mp hpre |>.2
      obtain rfl := (List.cons_prefix_cons.mp hpre).1
      exact iff_of_false (hexMatchesFrom_some_ne_nil _ t) fun h => h.1 hpre
    · rw [hexMatchesFrom_skip hpre, ih]
      exact (and_iff_right hpre).symm

theorem grepHex_eq_nil_iff {ls : List Line} :
    grepHex ls = [] ↔ ∀ l ∈ ls, ¬ ['0', 'x'] <:+: l := by
  rw [grepHex, List.flatMap_eq_nil_iff]
  exact forall₂_congr fun l _ => hexMatchesFrom_eq_nil_iff

theorem hexMatchesFrom_ne_nil {m? : Option Line} (hm : m? ≠ some []) (l : Line) :
    [] ∉ hexMatchesFrom m? l := by
  fun_induction hexMatchesFrom m? l with
  | case1 cs ih => exact ih nofun
  | case2 c cs _ ih => exact ih nofun
  | case3 => exact List.not_mem_nil
  | case4 m c cs _ ih => exact ih (by simp)
  | case5 m c cs _ ih =>
    rw [List.mem_cons, not_or]
    exact ⟨fun h => hm (congrArg some h.symm), ih nofun⟩
  | case6 m =>
    rw [List.mem_singleton]
    exact fun h => hm (congrArg some h.symm)

/-- `tail -1` of the matches is empty only if there are none. -/
theorem lastLine_grepHex_eq_nil_iff {ls : List Line} :
    lastLine (grepHex ls) = [] ↔ grepHex ls = [] := by
  refine ⟨fun h => ?_, fun h => by rw [h]; rfl⟩
  rw [lastLine] at h
  cases hlast : (grepHex ls).getLast? with
  | none => exact List.getLast?_eq_none_iff.mp hlast
  | some m =>
    rw [hlast] at h
    obtain rfl : m = [] := h
    obtain ⟨l, -, hm⟩ := List.mem_flatMap.mp (List.mem_of_getLast? hlast)
    exact absurd hm (hexMatchesFrom_ne_nil (Option.some_ne_none []).symm l)

theorem hexMatchesFrom_of_notMem {l : Line} (h : 'x' ∉ l) : hexMatchesFrom none l = [] :=
  hexMatchesFrom_eq_nil_iff.mpr fun hin => h (hin.subset (by decide))

/-! ## awk and the shell -/

/-- `awk -F sep '{print $n}'` of one line, for a separator that is a class of characters. -/
def field (sep : Char → Bool) (n : Nat) (l : Line) : Line := (l.splitOnP sep)[n - 1]?.getD []

/-- The characters an unquoted expansion is split at. -/
def isBlank (c : Char) : Bool := c == ' ' || c == '\t' || c == '\n'

/-- The words of an unquoted expansion. -/
def words (l : Line) : List Line := (l.splitOnP isBlank).filter (· ≠ [])

/-- `echo` of the words of an unquoted expansion. -/
def echo (l : Line) : Line := List.intercalate [' '] (words l)

/-- What comes after the last `sep`, if there is one. -/
def afterLast? (sep : Line) : Line → Option Line
  | [] => if sep = [] then some [] else none
  | c :: cs =>
    match afterLast? sep cs with
    | some r => some r
    | none => if sep <+: c :: cs then some ((c :: cs).drop sep.length) else none

/-- The shell's `${l##*sep}`. -/
def afterLast (sep l : Line) : Line := (afterLast? sep l).getD l

theorem field_two {sep : Char → Bool} {a b : Line} {c d : Char} {rest : Line}
    (ha : ∀ x ∈ a, sep x = false) (hc : sep c = true) (hb : ∀ x ∈ b, sep x = false)
    (hd : sep d = true) : field sep 2 (a ++ c :: (b ++ d :: rest)) = b := by
  rw [field, List.splitOnP_append_cons_of_forall_mem ha c hc,
    List.splitOnP_append_cons_of_forall_mem hb d hd]
  rfl

theorem words_nil : words [] = [] := by
  rw [words, List.splitOnP_eq_singleton (by nofun)]
  rfl

theorem words_blank {c : Char} (hc : isBlank c = true) (l : Line) : words (c :: l) = words l := by
  have hsplit : ([] ++ c :: l).splitOnP isBlank = [] :: l.splitOnP isBlank :=
    List.splitOnP_append_cons_of_forall_mem nofun c hc l
  rw [List.nil_append] at hsplit
  rw [words, hsplit]
  rfl

theorem words_of_blank {l : Line} (h : ∀ c ∈ l, isBlank c = true) : words l = [] := by
  induction l with
  | nil => exact words_nil
  | cons c l ih =>
    obtain ⟨hc, hl⟩ := List.forall_mem_cons.mp h
    rw [words_blank hc, ih hl]

theorem words_singleton {w : Line} (hne : w ≠ []) (hw : ∀ c ∈ w, isBlank c = false) :
    words w = [w] := by
  rw [words, List.splitOnP_eq_singleton hw]
  exact List.filter_cons_of_pos (decide_eq_true hne)

theorem echo_singleton {w : Line} (hne : w ≠ []) (hw : ∀ c ∈ w, isBlank c = false) :
    echo w = w := by
  rw [echo, words_singleton hne hw]
  exact List.append_nil w

theorem echo_nil : echo [] = [] := by
  rw [echo, words_nil]
  rfl

theorem afterLast?_eq_none {sep l : Line} (hsep : sep ≠ []) (h : ¬ sep <:+: l) :
    afterLast? sep l = none := by
  induction l with
  | nil => exact if_neg hsep
  | cons c l ih =>
    rw [List.infix_cons_iff, not_or] at h
    rw [afterLast?, ih h.2]
    exact if_neg h.1

/-- `${l##*sep}` where `sep` occurs for the last time. -/
theorem afterLast_append {c : Char} {sep : Line} (s : Line) {t : Line}
    (h : ¬ c :: sep <:+: sep ++ t) : afterLast (c :: sep) (s ++ c :: (sep ++ t)) = t := by
  have hlast : afterLast? (c :: sep) (s ++ c :: (sep ++ t)) = some t := by
    induction s with
    | nil =>
      show afterLast? (c :: sep) (c :: (sep ++ t)) = some t
      rw [afterLast?, afterLast?_eq_none (by nofun) h]
      have hpre : c :: sep <+: c :: (sep ++ t) := List.prefix_append (c :: sep) t
      show (if c :: sep <+: c :: (sep ++ t) then _ else _) = some t
      rw [if_pos hpre]
      exact congrArg some List.drop_left
    | cons d s ih =>
      rw [List.cons_append, afterLast?, ih]
  rw [afterLast, hlast]
  rfl

theorem afterLast_of_notMem {c : Char} {l : Line} (h : c ∉ l) : afterLast [c] l = l := by
  rw [afterLast, afterLast?_eq_none (by nofun) fun hin => h ((List.singleton_infix_iff _ _).mp hin)]
  rfl

/-- What comes before a separator does not matter. -/
theorem afterLast_singleton (s : Line) (c : Char) (t : Line) :
    afterLast [c] (s ++ c :: t) = afterLast [c] t := by
  have hlast : afterLast? [c] (s ++ c :: t) = some (afterLast [c] t) := by
    induction s with
    | nil =>
      rw [List.nil_append, afterLast?, afterLast]
      cases h : afterLast? [c] t with
      | some r => rfl
      | none =>
        have hpre : [c] <+: c :: t := List.prefix_append [c] t
        show (if [c] <+: c :: t then _ else _) = some t
        rw [if_pos hpre]
        rfl
    | cons d s ih =>
      rw [List.cons_append, afterLast?, ih]
  rw [afterLast, hlast]
  rfl

/-! ## Labels -/

/-- A label `k ++ x ++ ":"` that stands in a line that begins with the label of `y`, and
has no second colon, is that label: `k` does not occur in `y` again. -/
theorem eq_of_label_infix {k x y rest : Line} (hy : ':' ∉ k ++ y) (hrest : ':' ∉ rest)
    (huniq : ∀ s ∈ (k ++ y).tails, k <+: s → s = k ++ y)
    (h : k ++ x ++ [':'] <:+: k ++ y ++ ':' :: rest) : x = y := by
  obtain ⟨s, t, hst⟩ := h
  have heq : (k ++ y) ++ ':' :: rest = (s ++ (k ++ x)) ++ ':' :: t := by
    rw [← hst]
    simp only [List.append_assoc, List.cons_append, List.nil_append]
  -- there is one colon on the left, so it is the one of the label
  have hleft : k ++ y = s ++ (k ++ x) :=
    ((List.append_cons_inj_of_notMem hy hrest).mp heq).1
  have hmem : k ++ x ∈ (k ++ y).tails := (List.mem_tails _ _).mpr ⟨s, hleft.symm⟩
  exact List.append_cancel_left (huniq _ hmem (List.prefix_append k x))

end TextTools
