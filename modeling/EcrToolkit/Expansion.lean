import EcrToolkit.TextTools
import Mathlib.Data.List.DropRight
import Mathlib.Data.List.Nodup

/-!
# What the shell makes of an unquoted expansion

The text is split into fields, and each field that is a pattern is replaced by the names
in the working directory that match it, if there are any (`expand`).  A command
substitution is the output without the newlines at its end (`substitution`), and
`assignment?` reads a command that is a single assignment of literal text.

A field is a pattern with `?` and `*`; a `[` stands for itself, as it does without a `]`
after it.
-/
namespace Expansion

open TextTools

/-- The working directory: its names as the shell lists them. -/
structure Directory where
  names : List Line
  nodup : names.Nodup
  valid : ∀ n ∈ names, n ≠ [] ∧ '/' ∉ n

/-- The name matches the pattern. -/
def matchesName : Line → Line → Bool
  | [], n => n == []
  | p :: ps, n =>
    if p == '*' then n.tails.any (matchesName ps)
    else
      match n with
      | [] => false
      | c :: cs => (p == '?' || p == c) && matchesName ps cs

/-- A period at the beginning is matched by a period only. -/
def hides (p n : Line) : Bool := n.head? == some '.' && p.head? != some '.'

/-- The names a field stands for. -/
def Directory.matched (d : Directory) (p : Line) : List Line :=
  d.names.filter fun n => matchesName p n && !hides p n

/-- Pathname expansion of a field. -/
def Directory.expandField (d : Directory) (p : Line) : List Line :=
  if d.matched p = [] then [p] else d.matched p

/-- Field splitting, and then pathname expansion. -/
def Directory.expand (d : Directory) (text : Line) : List Line :=
  (words text).flatMap d.expandField

/-- Arguments, with blanks in between. -/
def joined (args : List Line) : Line := List.intercalate [' '] args

/-- `$(...)`, for a command with this output. -/
def substitution (output : Line) : Line := output.rdropWhile (· == '\n')

/-- A name of a variable. -/
def isName (name : Line) : Bool :=
  name != [] && name.all (fun c => c.isAlphanum || c == '_') && !name.head?.any Char.isDigit

/-- The characters that are not taken literally in the value of an assignment. -/
def isSyntax (c : Char) : Bool := c ∈ " \t\n|&;<>()$`\\\"'~".toList

/-- A command that assigns literal text to a variable and does nothing else: the variable
and the text. -/
def assignment? (command : Line) : Option (Line × Line) :=
  let name := command.takeWhile (· != '=')
  match command.dropWhile (· != '=') with
  | '=' :: value => if isName name && !value.any isSyntax then some (name, value) else none
  | _ => none

/-! ## Patterns -/

/-- The field is no pattern. -/
def Plain (w : Line) : Prop := '?' ∉ w ∧ '*' ∉ w

variable {d : Directory} {w n : Line}

theorem Plain.append {s : Line} (hw : Plain w) (hs : Plain s) : Plain (w ++ s) :=
  ⟨fun h => (List.mem_append.mp h).elim hw.1 hs.1, fun h => (List.mem_append.mp h).elim hw.2 hs.2⟩

theorem matchesName_nil {p : Char} (hp : p ≠ '*') (w : Line) : matchesName (p :: w) [] = false :=
  if_neg fun h => hp (beq_iff_eq.mp h)

theorem matchesName_cons {p : Char} (hp : p ≠ '*') (w : Line) (c : Char) (n : Line) :
    matchesName (p :: w) (c :: n) = ((p == '?' || p == c) && matchesName w n) :=
  if_neg fun h => hp (beq_iff_eq.mp h)

theorem matchesName_append {s : Line} (hw : Plain w) :
    matchesName (w ++ s) n = true ↔ ∃ t, n = w ++ t ∧ matchesName s t = true := by
  induction w generalizing n with
  | nil => exact ⟨fun h => ⟨n, rfl, h⟩, fun ⟨_, h, hs⟩ => h ▸ hs⟩
  | cons p w ih =>
    obtain ⟨hquestion, hstar⟩ := hw
    rw [List.mem_cons, not_or] at hquestion hstar
    have hp : (p == '?') = false := beq_false_of_ne (Ne.symm hquestion.1)
    cases n with
    | nil =>
      rw [List.cons_append, matchesName_nil (Ne.symm hstar.1)]
      exact iff_of_false Bool.false_ne_true fun ⟨t, h, _⟩ => nomatch h
    | cons c n =>
      rw [List.cons_append, matchesName_cons (Ne.symm hstar.1), hp, Bool.false_or,
        Bool.and_eq_true, beq_iff_eq, ih ⟨hquestion.2, hstar.2⟩]
      constructor
      · rintro ⟨rfl, t, rfl, ht⟩
        exact ⟨t, rfl, ht⟩
      · rintro ⟨t, h, ht⟩
        obtain ⟨rfl, rfl⟩ := List.cons.inj h
        exact ⟨rfl, t, rfl, ht⟩

/-- A field that is no pattern matches only itself. -/
theorem matchesName_plain (hw : Plain w) : matchesName w n = true ↔ n = w := by
  have h := matchesName_append (s := []) (n := n) hw
  rw [List.append_nil] at h
  rw [h]
  constructor
  · rintro ⟨t, rfl, ht⟩
    rw [matchesName, beq_iff_eq] at ht
    rw [ht, List.append_nil]
  · rintro rfl
    exact ⟨[], (List.append_nil _).symm, rfl⟩

/-- A question mark at the end matches one character. -/
theorem matchesName_question (hw : Plain w) :
    matchesName (w ++ ['?']) n = true ↔ ∃ c, n = w ++ [c] := by
  rw [matchesName_append hw]
  constructor
  · rintro ⟨t, rfl, ht⟩
    cases t with
    | nil => cases ht
    | cons c t =>
      have hrest : matchesName [] t = true := ht
      rw [matchesName, beq_iff_eq] at hrest
      exact ⟨c, by rw [hrest]⟩
  · rintro ⟨c, rfl⟩
    exact ⟨[c], rfl, rfl⟩

theorem mem_matched {p : Line} : n ∈ d.matched p ↔
    n ∈ d.names ∧ matchesName p n = true ∧ hides p n = false := by
  rw [Directory.matched, List.mem_filter, Bool.and_eq_true, Bool.not_eq_true']

theorem nodup_matched (d : Directory) (p : Line) : (d.matched p).Nodup := d.nodup.filter _

/-- A list without duplicates and with one value. -/
theorem eq_nil_or_singleton {α : Type} {l : List α} {a : α} (hl : l.Nodup)
    (h : ∀ x ∈ l, x = a) : l = [] ∨ l = [a] := by
  have hreplicate := List.eq_replicate_of_mem h
  rw [hreplicate, List.nodup_replicate] at hl
  rcases Nat.le_one_iff_eq_zero_or_eq_one.mp hl with h0 | h1
  · exact Or.inl (List.length_eq_zero_iff.mp h0)
  · rw [h1] at hreplicate
    exact Or.inr hreplicate

/-- **A field stays as it is** if it is the only name that matches, or there is none. -/
theorem expandField_eq_self_iff {p : Line} :
    d.expandField p = [p] ↔ ∀ n ∈ d.matched p, n = p := by
  unfold Directory.expandField
  constructor
  · intro h n hn
    split at h
    case isTrue hnone =>
      rw [hnone] at hn
      cases hn
    case isFalse =>
      rw [h] at hn
      exact List.mem_singleton.mp hn
  · intro h
    rcases eq_nil_or_singleton (nodup_matched d p) h with hnil | hone
    · exact if_pos hnil
    · rw [hone]
      exact if_neg (List.cons_ne_nil _ _)

theorem expandField_plain (hw : Plain w) : d.expandField w = [w] :=
  expandField_eq_self_iff.mpr fun _ hn => (matchesName_plain hw).mp (mem_matched.mp hn).2.1

/-- Text without blanks is one field. -/
theorem expand_of_not_blank {text : Line} (hne : text ≠ [])
    (h : ∀ c ∈ text, isBlank c = false) : d.expand text = d.expandField text := by
  rw [Directory.expand, words_singleton hne h, List.flatMap_singleton]

theorem expand_nil (d : Directory) : d.expand [] = [] := by
  rw [Directory.expand, words_nil]
  rfl

/-! ## Output -/

theorem mem_substitution {output : Line} {c : Char} (hc : c ≠ '\n') (h : c ∈ output) :
    c ∈ substitution output := by
  have hsplit := List.rdropWhile_append_rtakeWhile (p := (· == '\n')) (l := output)
  rw [← hsplit] at h
  rcases List.mem_append.mp h with h | h
  · exact h
  · have hnewline := List.mem_rtakeWhile_imp h
    exact absurd (beq_iff_eq.mp hnewline) hc

/-- The newline of `echo` is dropped. -/
theorem substitution_newline (output : Line) :
    substitution (output ++ ['\n']) = substitution output :=
  List.rdropWhile_concat_pos _ _ _ rfl

theorem substitution_singleton {c : Char} (hc : c ≠ '\n') : substitution [c] = [c] := by
  rw [substitution, List.rdropWhile_singleton, if_neg fun h => hc (beq_iff_eq.mp h)]

/-- Two arguments have a blank in between. -/
theorem blank_mem_joined (a b : Line) (args : List Line) : ' ' ∈ joined (a :: b :: args) := by
  rw [joined, List.intercalate_cons_cons]
  exact List.mem_append_left _ (List.mem_append_right _ (List.mem_singleton_self _))

theorem joined_singleton (a : Line) : joined [a] = a := by
  rw [joined, List.intercalate_singleton]

/-! ## Assignments -/

theorem nameChar_of_isName {name : Line} (h : isName name = true) {c : Char} (hc : c ∈ name) :
    (c.isAlphanum || c == '_') = true :=
  List.all_eq_true.mp (Bool.and_eq_true_iff.mp (Bool.and_eq_true_iff.mp h).1).2 c hc

theorem plain_of_isName {name : Line} (h : isName name = true) : Plain name :=
  ⟨fun hc => absurd (nameChar_of_isName h hc) (by decide),
    fun hc => absurd (nameChar_of_isName h hc) (by decide)⟩

theorem isBlank_of_isName {name : Line} (h : isName name = true) {c : Char} (hc : c ∈ name) :
    isBlank c = false := by
  have hchar := nameChar_of_isName h hc
  by_contra hblank
  simp only [isBlank, Bool.not_eq_false, Bool.or_eq_true, beq_iff_eq] at hblank
  rcases hblank with (rfl | rfl) | rfl <;> revert hchar <;> decide

/-- **What `name=value` does.** -/
theorem assignment?_eq {name value : Line} (hname : isName name = true) :
    assignment? (name ++ '=' :: value) =
      if value.any isSyntax then none else some (name, value) := by
  have hequals : ∀ c ∈ name, (c != '=') = true := by
    intro c hc
    refine bne_iff_ne.mpr ?_
    rintro rfl
    exact absurd (nameChar_of_isName hname hc) (by decide)
  have htake : (name ++ '=' :: value).takeWhile (· != '=') = name := by
    rw [List.takeWhile_append_of_pos hequals]
    exact List.append_nil name
  have hdrop : (name ++ '=' :: value).dropWhile (· != '=') = '=' :: value := by
    rw [List.dropWhile_append_of_pos hequals]
    rfl
  unfold assignment?
  rw [htake, hdrop]
  show (if isName name && !value.any isSyntax then some (name, value) else none) = _
  rw [hname]
  cases value.any isSyntax <;> rfl

end Expansion
