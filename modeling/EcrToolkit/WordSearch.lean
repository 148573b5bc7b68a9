import EcrToolkit.TextTools

/-!
# `grep -w`, and the last word of several lines

`grep -w p` selects a line in which `p` matches with no letter, digit or underscore next
to the match.  A pattern of such characters is then one of the maximal words of the line
(`selectsWord_iff`), and a line can be searched piece by piece (`wordRuns_append`).

A command substitution keeps the lines apart by newlines; `${dm##* }` cuts all but what
follows the last blank, which stands in the last line (`afterLast_output`).
-/
namespace TextTools

/-- Letters, digits and the underscore. -/
def isWordChar (c : Char) : Bool := c.isAlphanum || c == '_'

/-- `grep -w p` on the rest of a line, with `before` the character that comes before it. -/
def selectsWordFrom (p : Line) : (before : Option Char) → Line → Bool
  | before, [] => !before.any isWordChar && matchesHere p []
  | before, c :: cs =>
    (!before.any isWordChar && matchesHere p (c :: cs) &&
      !((c :: cs).drop p.length).head?.any isWordChar) || selectsWordFrom p (some c) cs

/-- The pattern matches somewhere in the line as a word. -/
def selectsWord (p l : Line) : Bool := selectsWordFrom p none l

/-- `grep -w p`. -/
def grepWord (p : Line) (ls : List Line) : List Line := ls.filter (selectsWord p)

/-- The longest runs of word characters, with an empty one between two other characters. -/
def wordRuns (l : Line) : List Line := l.splitOnP fun c => !isWordChar c

theorem wordRuns_append (s : Line) {c : Char} (hc : isWordChar c = false) (t : Line) :
    wordRuns (s ++ c :: t) = wordRuns s ++ wordRuns t :=
  List.splitOnP_append_cons s t (by rw [hc]; rfl)

theorem wordRuns_word {w : Line} (hw : ∀ c ∈ w, isWordChar c = true) : wordRuns w = [w] :=
  List.splitOnP_eq_singleton fun c hc => by rw [hw c hc]; rfl

/-- A run consists of characters of the line. -/
theorem subset_of_mem_wordRuns {w l : Line} (h : w ∈ wordRuns l) : w ⊆ l := by
  induction l generalizing w with
  | nil =>
    rw [wordRuns, List.splitOnP_nil, List.mem_singleton] at h
    exact h ▸ List.Subset.refl _
  | cons c l ih =>
    rw [wordRuns, List.splitOnP_cons_eq_if_modifyHead] at h
    split at h
    · rcases List.mem_cons.mp h with rfl | h
      · exact List.nil_subset _
      · exact List.Subset.trans (ih h) (List.subset_cons_self c l)
    · cases hruns : l.splitOnP fun c => !isWordChar c with
      | nil => exact absurd hruns (List.splitOnP_ne_nil _ l)
      | cons r rs =>
        rw [hruns, List.modifyHead_cons] at h
        have hmem : ∀ x ∈ r :: rs, x ⊆ l := fun x hx => ih (by rw [wordRuns, hruns]; exact hx)
        rcases List.mem_cons.mp h with rfl | h
        · exact List.cons_subset_cons c (hmem r (List.mem_cons_self ..))
        · exact List.Subset.trans (hmem w (List.mem_cons_of_mem r h)) (List.subset_cons_self c l)

section
variable {p : Line} (hp : ∀ c ∈ p, isWordChar c = true)
include hp

/-- A word that begins here is the run that begins here. -/
theorem matches_word_iff (l : Line) :
    (matchesHere p l && !(l.drop p.length).head?.any isWordChar) = true ↔
      (wordRuns l).head? = some p := by
  induction p generalizing l with
  | nil =>
    cases l with
    | nil => exact iff_of_true rfl rfl
    | cons c l =>
      rw [wordRuns, List.splitOnP_cons_eq_if_modifyHead]
      cases hc : isWordChar c <;> simp [matchesHere, hc]
  | cons d p ih =>
    obtain ⟨hd, hp⟩ := List.forall_mem_cons.mp hp
    have hdot : d ≠ '.' := by
      rintro rfl
      exact absurd hd (by decide)
    cases l with
    | nil => exact iff_of_false (by simp [matchesHere]) (by simp [wordRuns])
    | cons c l =>
      rw [wordRuns, List.splitOnP_cons_eq_if_modifyHead]
      cases hruns : l.splitOnP fun c => !isWordChar c with
      | nil => exact absurd hruns (List.splitOnP_ne_nil _ l)
      | cons r rs =>
        have hl := ih hp l
        rw [wordRuns, hruns, List.head?_cons, Option.some.injEq] at hl
        cases hc : isWordChar c
        · have hne : d ≠ c := by
            rintro rfl
            rw [hd] at hc
            cases hc
          simp [matchesHere, hdot, hne]
        · simp only [matchesHere, List.length_cons, List.drop_succ_cons, Bool.not_true,
            Bool.false_eq_true, if_false, List.modifyHead_cons, List.head?_cons,
            Option.some.injEq, List.cons.injEq, Bool.and_assoc, Bool.and_eq_true,
            Bool.or_eq_true, beq_iff_eq, hdot, false_or] at hl ⊢
          rw [hl]
          exact and_congr_left fun _ => eq_comm

theorem selectsWordFrom_iff (hne : p ≠ []) (before : Option Char) (l : Line) :
    selectsWordFrom p before l = true ↔
      before.any isWordChar = false ∧ (wordRuns l).head? = some p ∨ p ∈ (wordRuns l).tail := by
  induction l generalizing before with
  | nil =>
    obtain ⟨c, p, rfl⟩ := List.exists_cons_of_ne_nil hne
    simp [selectsWordFrom, matchesHere, wordRuns]
  | cons c l ih =>
    rw [selectsWordFrom, Bool.or_eq_true, ih, Bool.and_assoc, Bool.and_eq_true,
      matches_word_iff hp, Bool.not_eq_true']
    refine or_congr_right ?_
    cases hruns : l.splitOnP fun c => !isWordChar c with
    | nil => exact absurd hruns (List.splitOnP_ne_nil _ l)
    | cons r rs =>
      rw [wordRuns, wordRuns, List.splitOnP_cons_eq_if_modifyHead, hruns]
      cases hc : isWordChar c <;> simp [hc, eq_comm]

/-- **What `grep -w` finds**: the pattern is one of the words of the line. -/
theorem selectsWord_iff (hne : p ≠ []) {l : Line} :
    selectsWord p l = true ↔ p ∈ wordRuns l := by
  rw [selectsWord, selectsWordFrom_iff hp hne]
  cases hruns : wordRuns l with
  | nil => exact absurd hruns (List.splitOnP_ne_nil _ l)
  | cons r rs => simp [eq_comm]

end

/-! ## The output of a command -/

/-- The lines a command prints, as the text of its substitution. -/
def output (ls : List Line) : Line := List.intercalate ['\n'] ls

theorem output_append_singleton {ls : List Line} (hne : ls ≠ []) (l : Line) :
    output (ls ++ [l]) = output ls ++ '\n' :: l := by
  induction ls with
  | nil => exact absurd rfl hne
  | cons a ls ih =>
    cases ls with
    | nil => simp [output, List.intercalate]
    | cons b ls =>
      have htail := ih (by nofun)
      simp only [output, List.intercalate, List.cons_append, List.intersperse_cons_cons,
        List.flatten_cons] at htail ⊢
      rw [htail]
      simp

/-- **`${dm##* }` of several lines** is that of the last one, if there is a blank in it. -/
theorem afterLast_output (ls : List Line) {l : Line} (h : ' ' ∈ l) :
    afterLast [' '] (output (ls ++ [l])) = afterLast [' '] l := by
  by_cases hne : ls = []
  · subst hne
    simp [output, List.intercalate]
  · obtain ⟨s, t, rfl⟩ := List.append_of_mem h
    rw [output_append_singleton hne, ← List.cons_append, ← List.append_assoc,
      afterLast_singleton, afterLast_singleton]

end TextTools
