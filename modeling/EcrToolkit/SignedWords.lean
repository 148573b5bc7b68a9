import Mathlib.Algebra.Order.BigOperators.Group.List
import Mathlib.Algebra.Ring.Int.Defs

/-!
# Arithmetic on signed words

An operation on words of `w` bits is exact if its result fits.  `checked` computes a
result and refuses it if it does not fit, so an evaluation with `checked` at every
operation gives a value only if nothing wraps around, and then the evaluation on words
gives the same value: this is one lemma for each operation, and `foldlM_simulates` for a
loop.
-/
namespace SignedWords

variable {w : Nat} {u v : Int}

/-- `v` is the value of a word of `w` bits, read as a signed integer. -/
def Fits (w : Nat) (v : Int) : Prop := -2 ^ w ≤ v * 2 ∧ v * 2 < 2 ^ w

instance (w : Nat) (v : Int) : Decidable (Fits w v) := inferInstanceAs (Decidable (_ ∧ _))

/-- `v`, if it fits. -/
def checked (w : Nat) (v : Int) : Option Int := if Fits w v then some v else none

theorem checked_of_fits (h : Fits w v) : checked w v = some v := if_pos h

theorem checked_eq_some_iff : checked w v = some u ↔ Fits w v ∧ v = u := by
  rw [checked]
  split
  case isTrue h => exact ⟨fun hv => ⟨h, Option.some.inj hv⟩, fun hv => congrArg some hv.2⟩
  case isFalse h => exact ⟨nofun, fun hv => absurd hv.1 h⟩

theorem fits_zero (w : Nat) : Fits w 0 := by
  have hpow : (0 : Int) < 2 ^ w := Int.pow_pos (by decide)
  constructor <;> omega

/-- A number between two that fit. -/
theorem Fits.of_between {lo hi : Int} (hlo : Fits w lo) (hhi : Fits w hi) (h : lo ≤ v)
    (h' : v ≤ hi) : Fits w v := by
  have h1 := hlo.1
  have h2 := hhi.2
  constructor <;> omega

/-- A difference of numbers that are not negative. -/
theorem Fits.sub (hu : Fits w u) (hv : Fits w v) (hu0 : 0 ≤ u) (hv0 : 0 ≤ v) :
    Fits w (u - v) := by
  have h1 := hu.2
  have h2 := hv.2
  constructor <;> omega

/-- A quotient of numbers that are not negative. -/
theorem Fits.ediv (hu : Fits w u) (hu0 : 0 ≤ u) (hv0 : 0 ≤ v) : Fits w (u / v) := by
  exact (fits_zero w).of_between hu (Int.ediv_nonneg hu0 hv0) (Int.ediv_le_self v hu0)

/-- **What fits is not wrapped around.** -/
theorem bmod_of_checked (h : checked w v = some u) : v.bmod (2 ^ w) = u := by
  obtain ⟨⟨hlo, hhi⟩, rfl⟩ := checked_eq_some_iff.mp h
  refine Int.bmod_eq_of_le_mul_two ?_ ?_
  · rw [Int.natCast_pow]
    exact hlo
  · rw [Int.natCast_pow]
    exact hhi

theorem toInt_ofInt_of_fits (h : Fits w v) : (BitVec.ofInt w v).toInt = v := by
  rw [BitVec.toInt_ofInt]
  exact bmod_of_checked (checked_of_fits h)

/-! ## The operations -/

section
variable {x y : BitVec w}

theorem toInt_add_of_checked (h : checked w (x.toInt + y.toInt) = some u) :
    (x + y).toInt = u := by
  rw [BitVec.toInt_add]
  exact bmod_of_checked h

theorem toInt_sub_of_checked (h : checked w (x.toInt - y.toInt) = some u) :
    (x - y).toInt = u := by
  rw [BitVec.toInt_sub]
  exact bmod_of_checked h

theorem toInt_mul_of_checked (h : checked w (x.toInt * y.toInt) = some u) :
    (x * y).toInt = u := by
  rw [BitVec.toInt_mul]
  exact bmod_of_checked h

theorem toInt_sdiv_of_checked (h : checked w (x.toInt.tdiv y.toInt) = some u) :
    (x.sdiv y).toInt = u := by
  rw [BitVec.toInt_sdiv]
  exact bmod_of_checked h

end

/-! ## Loops -/

section
variable {α β σ τ : Type}

/-- **A loop with checks simulates the loop on words**, if one step does. -/
theorem foldlM_simulates (rel : σ → τ → Prop) {f : σ → α → Option σ} {g : τ → β → τ}
    {val : α → β} {xs : List α}
    (hstep : ∀ a ∈ xs, ∀ s s' t, rel s t → f s a = some s' → rel s' (g t (val a)))
    {s s' : σ} {t : τ} (hrel : rel s t) (h : xs.foldlM f s = some s') :
    rel s' ((xs.map val).foldl g t) := by
  induction xs generalizing s t with
  | nil =>
    cases h
    exact hrel
  | cons a xs ih =>
    rw [List.foldlM_cons] at h
    obtain ⟨s₁, hs₁, h⟩ := Option.bind_eq_some_iff.mp h
    have hrel₁ := hstep a List.mem_cons_self s s₁ t hrel hs₁
    exact ih (fun b hb => hstep b (List.mem_cons_of_mem a hb)) hrel₁ h

/-- **A loop that adds up and counts**: with terms that are not negative, nothing
wraps around if the sum and the number of terms fit. -/
theorem foldlM_add_count (w : Nat) (term : α → Int) {f : Int × Int → α → Option (Int × Int)}
    {xs : List α}
    (hf : ∀ x ∈ xs, ∀ r : Int × Int, Fits w (r.1 + term x) → Fits w (r.2 + 1) →
      f r x = some (r.1 + term x, r.2 + 1))
    (hterm : ∀ x ∈ xs, 0 ≤ term x) {r : Int × Int} (hr : Fits w r.1 ∧ Fits w r.2)
    (hsum : Fits w (r.1 + (xs.map term).sum)) (hcount : Fits w (r.2 + xs.length)) :
    xs.foldlM f r = some (r.1 + (xs.map term).sum, r.2 + xs.length) := by
  induction xs generalizing r with
  | nil =>
    rw [List.map_nil, List.sum_nil, Int.add_zero, List.length_nil, Int.natCast_zero,
      Int.add_zero]
    rfl
  | cons x xs ih =>
    rw [List.map_cons, List.sum_cons, ← Int.add_assoc] at hsum ⊢
    rw [List.length_cons, Int.natCast_succ, Int.add_comm (xs.length : Int), ← Int.add_assoc]
      at hcount ⊢
    have hrest : 0 ≤ (xs.map term).sum := by
      refine List.sum_nonneg fun t ht => ?_
      obtain ⟨y, hy, rfl⟩ := List.mem_map.mp ht
      exact hterm y (List.mem_cons_of_mem x hy)
    have hx := hterm x List.mem_cons_self
    have h1 : Fits w (r.1 + term x) := hr.1.of_between hsum (by omega) (by omega)
    have h2 : Fits w (r.2 + 1) := hr.2.of_between hcount (by omega) (by omega)
    rw [List.foldlM_cons, hf x List.mem_cons_self r h1 h2]
    exact ih (fun y hy => hf y (List.mem_cons_of_mem x hy))
      (fun y hy => hterm y (List.mem_cons_of_mem x hy)) ⟨h1, h2⟩ hsum hcount

end

end SignedWords
