import Mathlib.Data.List.TakeWhile
import Mathlib.Data.Nat.Digits.Defs

/-!
# `strtoul`

The conversion of the C standard, in the C locale, for an `unsigned long` of 64 bits.
`numeral` skips white space and reads the numeral at the beginning of a string;
`numeral_eq_some` and `numeral_eq_none` say that this is the longest initial part that has
the form the standard asks for (`Form`).  `strtoul` is its value, negated after a minus
sign; a numeral above `ULONG_MAX` gives `ULONG_MAX` and sets `errno` to `ERANGE`.
-/
namespace Strtoul

/-- The bases with digits of their own. -/
structure Base where
  value : Nat
  two_le : 2 ≤ value
  le_36 : value ≤ 36

def Base.ten : Base := ⟨10, by decide, by decide⟩

def Base.sixteen : Base := ⟨16, by decide, by decide⟩

/-- `isspace`. -/
def isSpace (c : Char) : Bool :=
  c == ' ' || c == '\t' || c == '\n' || c == '\x0b' || c == '\x0c' || c == '\r'

/-- What a letter or digit counts for; `36` is above every base. -/
def digitValue (c : Char) : Nat :=
  if '0' ≤ c ∧ c ≤ '9' then c.toNat - '0'.toNat
  else if 'a' ≤ c ∧ c ≤ 'z' then c.toNat - 'a'.toNat + 10
  else if 'A' ≤ c ∧ c ≤ 'Z' then c.toNat - 'A'.toNat + 10
  else 36

def isDigit (b : Base) (c : Char) : Bool := digitValue c < b.value

variable {b : Base} {s t : List Char}

/-! ## The expected form -/

/-- An optional sign. -/
inductive Sign : Bool → List Char → Prop
  | none : Sign false []
  | plus : Sign false ['+']
  | minus : Sign true ['-']

/-- An optional `0x` or `0X`, for base 16. -/
inductive Radix (b : Base) : List Char → Prop
  | none : Radix b []
  | hex (x : Char) (hb : b.value = 16) (hx : x = 'x' ∨ x = 'X') : Radix b ['0', x]

/-- **The expected form**: a sign, a radix and digits. -/
structure Form (b : Base) (text : List Char) (negative : Bool) (digits : List Char) : Prop where
  spelled : ∃ sign radix, text = sign ++ (radix ++ digits) ∧ Sign negative sign ∧ Radix b radix
  ne : digits ≠ []
  digits : ∀ c ∈ digits, isDigit b c = true

/-! ## Reading -/

/-- Read a sign. -/
def readSign : List Char → Bool × List Char
  | '-' :: s => (true, s)
  | '+' :: s => (false, s)
  | s => (false, s)

/-- Read a radix; without a digit after it, its `0` is a numeral. -/
def skipRadix (b : Base) : List Char → List Char
  | '0' :: x :: c :: s =>
    if b.value = 16 ∧ (x = 'x' ∨ x = 'X') ∧ isDigit b c then c :: s else '0' :: x :: c :: s
  | s => s

/-- A numeral, and what comes after it. -/
structure Numeral where
  negative : Bool
  digits : List Char
  rest : List Char
  deriving DecidableEq

/-- The numeral at the beginning of the string, after white space. -/
def numeral (b : Base) (val : List Char) : Option Numeral :=
  let (negative, s) := readSign (val.dropWhile isSpace)
  let s := skipRadix b s
  let digits := s.takeWhile (isDigit b)
  if digits = [] then none else some ⟨negative, digits, s.dropWhile (isDigit b)⟩

/-! ## The longest numeral -/

theorem not_isDigit {c : Char} (h : digitValue c = 36) : isDigit b c = false :=
  decide_eq_false (by rw [h]; exact Nat.not_lt.mpr b.le_36)

theorem readSign_spelled (s : List Char) :
    ∃ sign, s = sign ++ (readSign s).2 ∧ Sign (readSign s).1 sign := by
  unfold readSign
  split
  · exact ⟨['-'], rfl, .minus⟩
  · exact ⟨['+'], rfl, .plus⟩
  · exact ⟨[], rfl, .none⟩

theorem skipRadix_spelled (b : Base) (s : List Char) :
    ∃ radix, s = radix ++ skipRadix b s ∧ Radix b radix := by
  unfold skipRadix
  split
  · split
    case isTrue h => exact ⟨_, rfl, .hex _ h.1 h.2.1⟩
    case isFalse => exact ⟨[], rfl, .none⟩
  · exact ⟨[], rfl, .none⟩

/-- A sign is read, if what comes after it is not another one. -/
theorem readSign_append {negative : Bool} {sign : List Char} (h : Sign negative sign) {c : Char}
    (hminus : c ≠ '-') (hplus : c ≠ '+') :
    readSign (sign ++ c :: s) = (negative, c :: s) := by
  cases h with
  | none =>
    show readSign (c :: s) = _
    unfold readSign
    split
    case h_1 heq => exact absurd (List.cons.inj heq).1 hminus
    case h_2 heq => exact absurd (List.cons.inj heq).1 hplus
    case h_3 => rfl
  | plus => rfl
  | minus => rfl

/-- Digits at the beginning are read. -/
theorem takeWhile_digits (hne : s ≠ []) (hs : ∀ c ∈ s, isDigit b c = true) :
    (s ++ t).takeWhile (isDigit b) ≠ [] ∧
      s.length + ((s ++ t).dropWhile (isDigit b)).length ≤ (s ++ t).length := by
  rw [List.takeWhile_append_of_pos hs, List.dropWhile_append_of_pos hs, List.length_append]
  refine ⟨List.append_ne_nil_of_left_ne_nil hne _, ?_⟩
  have hdrop := (List.dropWhile_suffix (l := t) (isDigit b)).length_le
  omega

/-- Digits are read also when the first of them is taken for a part of the radix. -/
theorem skipRadix_digits (hne : s ≠ []) (hs : ∀ c ∈ s, isDigit b c = true) :
    (skipRadix b (s ++ t)).takeWhile (isDigit b) ≠ [] ∧
      s.length + ((skipRadix b (s ++ t)).dropWhile (isDigit b)).length ≤ (s ++ t).length := by
  unfold skipRadix
  split
  case h_2 => exact takeWhile_digits hne hs
  case h_1 x c u heq =>
    split
    case isFalse => exact heq ▸ takeWhile_digits hne hs
    case isTrue h =>
      obtain ⟨hb, hx, hc⟩ := h
      have hnot : isDigit b x = false := by
        refine decide_eq_false ?_
        rw [hb]
        rcases hx with rfl | rfl <;> decide
      -- the `0` is the only digit before the `x`
      have hone : s.length = 1 := by
        obtain ⟨d, s, rfl⟩ := List.exists_cons_of_ne_nil hne
        cases s with
        | nil => rfl
        | cons e s =>
          obtain rfl := (List.cons.inj (List.cons.inj heq).2).1
          rw [hs e (by simp)] at hnot
          cases hnot
      have hdrop := (List.dropWhile_suffix (l := c :: u) (isDigit b)).length_le
      refine ⟨?_, ?_⟩
      · rw [List.takeWhile_cons_of_pos hc]
        exact List.cons_ne_nil _ _
      · rw [heq, hone]
        simp only [List.length_cons] at hdrop ⊢
        omega

/-- **Whatever has the expected form is read**, and nothing shorter. -/
theorem Form.read {text : List Char} {negative : Bool} {digits : List Char}
    (h : Form b text negative digits) (hs : text <+: s) :
    (skipRadix b (readSign s).2).takeWhile (isDigit b) ≠ [] ∧
      text.length + ((skipRadix b (readSign s).2).dropWhile (isDigit b)).length ≤ s.length := by
  obtain ⟨sign, radix, rfl, hsign, hradix⟩ := h.spelled
  obtain ⟨t, rfl⟩ := hs
  obtain ⟨d, ds, hds⟩ := List.exists_cons_of_ne_nil h.ne
  have hd : isDigit b d = true := h.digits d (hds ▸ List.mem_cons_self ..)
  cases hradix with
  | none =>
    have hminus : d ≠ '-' := by
      rintro rfl
      rw [not_isDigit (by decide)] at hd
      cases hd
    have hplus : d ≠ '+' := by
      rintro rfl
      rw [not_isDigit (by decide)] at hd
      cases hd
    have hread : readSign (sign ++ ([] ++ digits) ++ t) = (negative, digits ++ t) := by
      rw [hds, List.append_assoc]
      exact readSign_append hsign hminus hplus
    obtain ⟨htake, hlength⟩ := skipRadix_digits (t := t) h.ne h.digits
    rw [hread]
    refine ⟨htake, ?_⟩
    simp only [List.length_append, List.nil_append] at hlength ⊢
    omega
  | hex x hb hx =>
    have hread : readSign (sign ++ (['0', x] ++ digits) ++ t) =
        (negative, '0' :: x :: (digits ++ t)) := by
      rw [List.append_assoc]
      exact readSign_append hsign (by decide) (by decide)
    have hskip : skipRadix b ('0' :: x :: (digits ++ t)) = digits ++ t := by
      rw [hds]
      exact if_pos ⟨hb, hx, hd⟩
    obtain ⟨htake, hlength⟩ := takeWhile_digits (t := t) h.ne h.digits
    rw [hread, hskip]
    refine ⟨htake, ?_⟩
    simp only [List.length_append, List.length_cons, List.length_nil] at hlength ⊢
    omega

/-- The numeral is the longest initial part of `s` of the expected form. -/
structure Subject (b : Base) (s : List Char) (n : Numeral) : Prop where
  form : ∃ text, s = text ++ n.rest ∧ Form b text n.negative n.digits
  longest : ∀ text negative digits, text <+: s → Form b text negative digits →
    text.length + n.rest.length ≤ s.length

theorem numeral_eq_some {val : List Char} {n : Numeral} (h : numeral b val = some n) :
    Subject b (val.dropWhile isSpace) n := by
  unfold numeral at h
  generalize val.dropWhile isSpace = s at h
  dsimp only at h
  split at h
  case isTrue => cases h
  case isFalse hne =>
    obtain rfl := Option.some.inj h
    constructor
    · obtain ⟨sign, hs, hsign⟩ := readSign_spelled s
      obtain ⟨radix, hr, hradix⟩ := skipRadix_spelled b (readSign s).2
      refine ⟨sign ++ (radix ++ (skipRadix b (readSign s).2).takeWhile (isDigit b)), ?_, ?_⟩
      · rw [List.append_assoc, List.append_assoc, List.takeWhile_append_dropWhile, ← hr, ← hs]
      · exact ⟨⟨sign, radix, rfl, hsign, hradix⟩, hne, fun c hc => List.mem_takeWhile_imp hc⟩
    · intro text negative digits hprefix hform
      exact (hform.read hprefix).2

theorem numeral_eq_none {val : List Char} (h : numeral b val = none) {text : List Char}
    {negative : Bool} {digits : List Char} (htext : text <+: val.dropWhile isSpace) :
    ¬ Form b text negative digits := by
  intro hform
  unfold numeral at h
  dsimp only at h
  rw [if_neg (hform.read htext).1] at h
  cases h

/-! ## The conversion -/

/-- The number the digits stand for. -/
def Numeral.magnitude (b : Base) (n : Numeral) : Nat :=
  Nat.ofDigits b.value (n.digits.reverse.map digitValue)

/-- `ULONG_MAX`. -/
def ulongMax : Nat := 2 ^ 64 - 1

/-- What `strtoul` returns, how many characters are before `*endptr`, and whether it sets
`errno` to `ERANGE`. -/
structure Conversion where
  value : BitVec 64
  endptr : Nat
  range : Bool
  deriving DecidableEq

/-- `strtoul(val, &endptr, base)`. -/
def strtoul (val : List Char) (b : Base) : Conversion :=
  match numeral b val with
  | none => ⟨0, 0, false⟩
  | some n =>
    let endptr := val.length - n.rest.length
    if ulongMax < n.magnitude b then ⟨BitVec.ofNat 64 ulongMax, endptr, true⟩
    else if n.negative then ⟨-BitVec.ofNat 64 (n.magnitude b), endptr, false⟩
    else ⟨BitVec.ofNat 64 (n.magnitude b), endptr, false⟩

/-- The numeral is above `ULONG_MAX`. -/
def Overflows (b : Base) (val : List Char) : Prop :=
  ∃ n, numeral b val = some n ∧ ulongMax < n.magnitude b

variable {val : List Char}

theorem Form.length_pos {text : List Char} {negative : Bool} {digits : List Char}
    (h : Form b text negative digits) : 0 < text.length := by
  obtain ⟨sign, radix, rfl, -, -⟩ := h.spelled
  have hdigits := List.length_pos_iff.mpr h.ne
  simp only [List.length_append]
  omega

theorem rest_lt_of_numeral {n : Numeral} (h : numeral b val = some n) :
    n.rest.length < val.length := by
  obtain ⟨text, htext, hform⟩ := (numeral_eq_some h).form
  have hspace := (List.dropWhile_suffix (l := val) isSpace).length_le
  have hpos := hform.length_pos
  rw [htext, List.length_append] at hspace
  omega

theorem strtoul_of_none (h : numeral b val = none) : strtoul val b = ⟨0, 0, false⟩ := by
  rw [strtoul, h]

/-- **No conversion** is told by `*endptr = val`. -/
theorem strtoul_endptr_eq_zero_iff : (strtoul val b).endptr = 0 ↔ numeral b val = none := by
  refine ⟨fun h => ?_, fun h => by rw [strtoul_of_none h]⟩
  by_contra hne
  obtain ⟨n, hn⟩ := Option.ne_none_iff_exists'.mp hne
  have hlt := rest_lt_of_numeral hn
  have hendptr : (strtoul val b).endptr = val.length - n.rest.length := by
    rw [strtoul, hn]
    dsimp only
    split
    · rfl
    · split <;> rfl
  omega

/-- **An overflow** is told by `ERANGE`. -/
theorem strtoul_range_iff : (strtoul val b).range = true ↔ Overflows b val := by
  unfold strtoul Overflows
  cases hn : numeral b val with
  | none => exact iff_of_false Bool.false_ne_true fun ⟨_, h, _⟩ => nomatch h
  | some n =>
    dsimp only
    split
    case isTrue hlt => exact iff_of_true rfl ⟨n, rfl, hlt⟩
    case isFalse hle =>
      refine iff_of_false ?_ ?_
      · split <;> exact Bool.false_ne_true
      · rintro ⟨n', hn', hlt⟩
        obtain rfl := Option.some.inj hn'
        exact hle hlt

/-- Its value is `ULONG_MAX`, with all bits set. -/
theorem strtoul_of_overflow (h : Overflows b val) : (strtoul val b).value = -1 := by
  obtain ⟨n, hn, hlt⟩ := h
  unfold strtoul
  rw [hn]
  dsimp only
  rw [if_pos hlt]
  show BitVec.ofNat 64 ulongMax = -1
  decide

theorem Overflows.numeral_ne_none (h : Overflows b val) : numeral b val ≠ none := by
  obtain ⟨n, hn, -⟩ := h
  rw [hn]
  exact Option.some_ne_none n

end Strtoul
