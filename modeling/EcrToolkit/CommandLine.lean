import EcrToolkit.TextTools

/-!
# The command line of `ecr.sh`

`getopt` reads the words of the command line and puts the options first and the operands
after `--` (`getopt`); the script goes through what it prints (`parseOptions`) and keeps
what stands after `--` as its positional parameters: those are the operands
(`operand_of_getopt`).
-/
namespace EcrToolkit

open TextTools

/-! ## Words -/

/-- The characters that mean something to the shell. -/
def isSpecial (c : Char) : Bool := isBlank c || c ∈ "|&;()<>$`\\\"'*?[]#~\x7b\x7d".toList

/-- A word that the shell leaves as it is, however often it is expanded and read again. -/
@[ext] structure Word where
  chars : Line
  ne : chars ≠ []
  plain : ∀ c ∈ chars, isSpecial c = false

/-- The word, checked. -/
def Word.ofLine (w : Line) (h : (w ≠ [] && w.all fun c => !isSpecial c) = true) : Word where
  chars := w
  ne := of_decide_eq_true (Bool.and_eq_true_iff.mp h).1
  plain := fun c hc => by simpa using List.all_eq_true.mp (Bool.and_eq_true_iff.mp h).2 c hc

/-! ## getopt -/

/-- `opts_short`. -/
def optsShort : Line := "kcflmh".toList

/-- `opts_long`. -/
def optsLong : List Line :=
  ["kmalloc".toList, "csv".toList, "flush".toList, "cache".toList, "memory".toList, "help".toList]

/-- The long option that `name` is, or that it is the beginning of if there is no other. -/
def longOption? (name : Line) : Option Line :=
  if name ∈ optsLong then some name
  else
    match optsLong.filter (name.isPrefixOf ·) with
    | [n] => some n
    | _ => none

/-- How `getopt` reads a word. -/
inductive Reading
  | options (os : List Line)
  | operand
  | endOfOptions
  | error

/-- A word is one long option, or one or more short ones; the original `getopt` does not
have the long ones. -/
def readWord (enhanced : Bool) : Line → Reading
  | ['-', '-'] => .endOfOptions
  | '-' :: '-' :: name =>
    if enhanced then
      match longOption? name with
      | some n => .options ['-' :: '-' :: n]
      | none => .error
    else .error
  | '-' :: c :: cs =>
    if (c :: cs).all optsShort.contains then .options ((c :: cs).map fun o => ['-', o]) else .error
  | _ => .operand

/-- `getopt`: the options and the operands it prints, or `none` if it fails. -/
def getopt (enhanced : Bool) : List Line → Option (List Line × List Line)
  | [] => some ([], [])
  | w :: ws =>
    match readWord enhanced w with
    | .endOfOptions => some ([], ws)
    | .options os => (getopt enhanced ws).map fun r => (os ++ r.1, r.2)
    | .operand => (getopt enhanced ws).map fun r => (r.1, w :: r.2)
    | .error => none

/-! ## The options of the script -/

/-- `kmalloc_enable`, ..., `memory_enable`. -/
structure Options where
  kmalloc : Bool := false
  csv : Bool := false
  flush : Bool := false
  cache : Bool := false
  memory : Bool := false

/-- `while [ $# -gt 0 ]`: the options, and the positional parameters when the loop ends;
`none` if it exits with the help text. -/
def parseOptions : Options → List Line → Option (Options × List Line)
  | o, [] => some (o, [])
  | o, w :: ws =>
    if w = "-k".toList ∨ w = "--kmalloc".toList then parseOptions { o with kmalloc := true } ws
    else if w = "-c".toList ∨ w = "--csv".toList then parseOptions { o with csv := true } ws
    else if w = "-f".toList ∨ w = "--flush".toList then
      parseOptions { o with flush := true, kmalloc := true } ws
    else if w = "-l".toList ∨ w = "--cache".toList then
      parseOptions { o with cache := true, kmalloc := true } ws
    else if w = "-m".toList ∨ w = "--memory".toList then
      parseOptions { o with memory := true, kmalloc := true } ws
    else if w = "-h".toList ∨ w = "--help".toList then none
    else if w = "--".toList then some (o, ws)
    else parseOptions o ws

/-- What the script makes of its command line. -/
inductive Parsed
  | refused
  | help
  | run (o : Options) (parameters : List Line)

/-- From `getopt` to the end of the loop. -/
def parseArguments (enhanced : Bool) (args : List Line) : Parsed :=
  match getopt enhanced args with
  | none => .refused
  | some (options, operands) =>
    match parseOptions {} (options ++ "--".toList :: operands) with
    | none => .help
    | some (o, parameters) => .run o parameters

/-- The first operand, if the script comes so far. -/
def Parsed.operand : Parsed → Option Line
  | .run _ parameters => parameters.head?
  | _ => none

theorem Parsed.operand_eq_some_iff {parsed : Parsed} {w : Line} :
    parsed.operand = some w ↔ ∃ o ps, parsed = .run o (w :: ps) := by
  constructor
  · intro h
    cases parsed with
    | run o ps =>
      obtain ⟨ps', rfl⟩ := List.head?_eq_some_iff.mp h
      exact ⟨o, ps', rfl⟩
    | refused | help => cases h
  · rintro ⟨o, ps, rfl⟩
    rfl

/-- `-h` is among the options. -/
def AsksForHelp (options : List Line) : Prop :=
  "-h".toList ∈ options ∨ "--help".toList ∈ options

instance (options : List Line) : Decidable (AsksForHelp options) :=
  inferInstanceAs (Decidable (_ ∨ _))

/-- A command line that `getopt` accepts, with one operand. -/
structure CommandLine (enhanced : Bool) where
  words : List Word
  options : List Line
  operand : Word
  accepted : getopt enhanced (words.map (·.chars)) = some (options, [operand.chars])

/-! ## The positional parameters are the operands -/

theorem longOption?_mem {name n : Line} (h : longOption? name = some n) : n ∈ optsLong := by
  unfold longOption? at h
  split at h
  case isTrue hmem =>
    obtain rfl := Option.some.inj h
    exact hmem
  case isFalse =>
    split at h
    case h_1 n' hfilter =>
      obtain rfl := Option.some.inj h
      exact List.mem_of_mem_filter (hfilter ▸ List.mem_singleton_self n')
    case h_2 => cases h

/-- No option is `--`. -/
theorem readWord_options {enhanced : Bool} {w : Line} {os : List Line}
    (h : readWord enhanced w = .options os) : "--".toList ∉ os := by
  unfold readWord at h
  split at h
  case h_1 => cases h
  case h_2 name =>
    split at h
    case isFalse => cases h
    case isTrue =>
      split at h
      case h_2 => cases h
      case h_1 n hn =>
        obtain rfl := Reading.options.inj h
        have hne : ∀ n ∈ optsLong, n ≠ [] := by decide
        intro hmem
        exact hne n (longOption?_mem hn)
          (List.cons.inj (List.cons.inj (List.mem_singleton.mp hmem)).2).2.symm
  case h_3 c cs =>
    split at h
    case isFalse => cases h
    case isTrue hshort =>
      obtain rfl := Reading.options.inj h
      intro hmem
      obtain ⟨o, ho, he⟩ := List.mem_map.mp hmem
      obtain rfl : o = '-' := (List.cons.inj (List.cons.inj he).2).1
      exact absurd (List.all_eq_true.mp hshort '-' ho) (by decide)
  case h_4 => cases h

theorem getopt_options {enhanced : Bool} {args os operands : List Line}
    (h : getopt enhanced args = some (os, operands)) : "--".toList ∉ os := by
  induction args generalizing os operands with
  | nil =>
    obtain ⟨rfl, -⟩ := Prod.mk.inj (Option.some.inj h)
    exact List.not_mem_nil
  | cons w ws ih =>
    unfold getopt at h
    cases hw : readWord enhanced w with
    | endOfOptions =>
      rw [hw] at h
      obtain ⟨rfl, -⟩ := Prod.mk.inj (Option.some.inj h)
      exact List.not_mem_nil
    | options os' =>
      rw [hw] at h
      obtain ⟨r, hr, he⟩ := Option.map_eq_some_iff.mp h
      obtain ⟨rfl, -⟩ := Prod.mk.inj he
      rw [List.mem_append, not_or]
      exact ⟨readWord_options hw, ih hr⟩
    | operand =>
      rw [hw] at h
      obtain ⟨r, hr, he⟩ := Option.map_eq_some_iff.mp h
      obtain ⟨rfl, -⟩ := Prod.mk.inj he
      exact ih hr
    | error =>
      rw [hw] at h
      cases h

/-- An option other than `-h`. -/
theorem asksForHelp_cons {w : Line} {os : List Line} (hshort : w ≠ "-h".toList)
    (hlong : w ≠ "--help".toList) : AsksForHelp (w :: os) ↔ AsksForHelp os := by
  unfold AsksForHelp
  rw [List.mem_cons, List.mem_cons, or_iff_right hshort.symm, or_iff_right hlong.symm]

/-- **The loop ends at `--`**, or at `-h`. -/
theorem parseOptions_append {os : List Line} (hos : "--".toList ∉ os) (o : Options)
    (operands : List Line) : (parseOptions o (os ++ "--".toList :: operands)).map (·.2) =
      if AsksForHelp os then none else some operands := by
  induction os generalizing o with
  | nil =>
    rw [if_neg (by decide)]
    rfl
  | cons w os ih =>
    rw [List.mem_cons, not_or] at hos
    -- an option with a short and a long name, neither of which asks for help
    have hoption : ∀ {short long : Line} (o : Options), w = short ∨ w = long →
        short ≠ "-h".toList → short ≠ "--help".toList → long ≠ "-h".toList →
        long ≠ "--help".toList → (parseOptions o (os ++ "--".toList :: operands)).map (·.2) =
          if AsksForHelp (w :: os) then none else some operands := by
      rintro short long o (rfl | rfl) h1 h2 h3 h4
      · simp only [asksForHelp_cons h1 h2]
        exact ih hos.2 o
      · simp only [asksForHelp_cons h3 h4]
        exact ih hos.2 o
    rw [List.cons_append]
    unfold parseOptions
    by_cases hk : w = "-k".toList ∨ w = "--kmalloc".toList
    · rw [if_pos hk]
      exact hoption _ hk (by decide) (by decide) (by decide) (by decide)
    rw [if_neg hk]
    by_cases hc : w = "-c".toList ∨ w = "--csv".toList
    · rw [if_pos hc]
      exact hoption _ hc (by decide) (by decide) (by decide) (by decide)
    rw [if_neg hc]
    by_cases hf : w = "-f".toList ∨ w = "--flush".toList
    · rw [if_pos hf]
      exact hoption _ hf (by decide) (by decide) (by decide) (by decide)
    rw [if_neg hf]
    by_cases hl : w = "-l".toList ∨ w = "--cache".toList
    · rw [if_pos hl]
      exact hoption _ hl (by decide) (by decide) (by decide) (by decide)
    rw [if_neg hl]
    by_cases hm : w = "-m".toList ∨ w = "--memory".toList
    · rw [if_pos hm]
      exact hoption _ hm (by decide) (by decide) (by decide) (by decide)
    rw [if_neg hm]
    by_cases hh : w = "-h".toList ∨ w = "--help".toList
    · have hhelp : AsksForHelp (w :: os) :=
        hh.imp (fun h => List.mem_cons.mpr (Or.inl h.symm)) fun h =>
          List.mem_cons.mpr (Or.inl h.symm)
      rw [if_pos hh, if_pos hhelp]
      rfl
    rw [if_neg hh, if_neg (Ne.symm hos.1), ih hos.2 o]
    obtain ⟨hshort, hlong⟩ := not_or.mp hh
    simp only [asksForHelp_cons hshort hlong]

/-- **The operand of the script** is the first one `getopt` found, unless it prints the
help text. -/
theorem operand_of_getopt {enhanced : Bool} {args os operands : List Line}
    (h : getopt enhanced args = some (os, operands)) :
    (parseArguments enhanced args).operand =
      if AsksForHelp os then none else operands.head? := by
  have hparse := parseOptions_append (getopt_options h) {} operands
  unfold parseArguments
  rw [h]
  dsimp only
  cases hresult : parseOptions {} (os ++ "--".toList :: operands) with
  | none =>
    rw [hresult] at hparse
    split at hparse
    case isTrue hhelp => exact (if_pos hhelp).symm
    case isFalse => cases hparse
  | some r =>
    rw [hresult] at hparse
    split at hparse
    case isTrue => cases hparse
    case isFalse hhelp =>
      rw [if_neg hhelp]
      exact congrArg List.head? (Option.some.inj hparse)

theorem CommandLine.operand_eq {enhanced : Bool} (c : CommandLine enhanced) :
    (parseArguments enhanced (c.words.map (·.chars))).operand =
      if AsksForHelp c.options then none else some c.operand.chars :=
  operand_of_getopt c.accepted

/-- Options and operands in any order. -/
example : getopt true ["ecr.ko".toList, "-kc".toList, "--mem".toList] =
    some (["-k".toList, "-c".toList, "--memory".toList], ["ecr.ko".toList]) := by
  decide +kernel

end EcrToolkit
