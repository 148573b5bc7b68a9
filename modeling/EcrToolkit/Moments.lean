import Mathlib.Algebra.Order.BigOperators.Group.List
import Mathlib.Algebra.BigOperators.Group.List.Basic
import Mathlib.Data.Rat.Floor
import Mathlib.Data.Int.Cast.Lemmas
import Mathlib.Tactic.Linarith
import Mathlib.Tactic.FieldSimp
import Mathlib.Tactic.Ring

/-!
# Mean and variance of a list

The mean of a list, the sum of the squared deviations from a given number, and how they
change when the number is not the mean but, say, the mean rounded down
(`deviations_eq_add`).  For a list of numbers from `0` to `R` the squared deviations from
the rounded mean add up to at most `n * (R^2 + 4) / 4` (`four_mul_deviations_le`), which
is far below the obvious `n * R^2`.
-/
namespace Moments

section
variable {K : Type} [CommRing K]

/-- The sum of the squared deviations from `c`. -/
def deviations (c : K) (xs : List K) : K := (xs.map fun x => (x - c) * (x - c)).sum

/-- The square multiplied out. -/
theorem deviations_eq (c : K) (xs : List K) :
    deviations c xs = deviations 0 xs - 2 * c * xs.sum + xs.length * (c * c) := by
  unfold deviations
  induction xs with
  | nil => simp
  | cons x xs ih =>
    rw [List.map_cons, List.sum_cons, ih, List.map_cons, List.sum_cons, List.sum_cons,
      List.length_cons, Nat.cast_succ]
    ring

theorem deviations_nonneg [LinearOrder K] [IsStrictOrderedRing K] (c : K) (xs : List K) :
    0 ≤ deviations c xs := by
  refine List.sum_nonneg fun t ht => ?_
  obtain ⟨x, _, rfl⟩ := List.mem_map.mp ht
  exact mul_self_nonneg (x - c)

/-- One squared deviation. -/
theorem le_deviations [LinearOrder K] [IsStrictOrderedRing K] (c : K) {xs : List K} {x : K}
    (hx : x ∈ xs) : (x - c) * (x - c) ≤ deviations c xs := by
  refine List.single_le_sum (fun t ht => ?_) _ (List.mem_map_of_mem hx)
  obtain ⟨y, _, rfl⟩ := List.mem_map.mp ht
  exact mul_self_nonneg (y - c)

/-- The squares of numbers from `0` to `R`. -/
theorem deviations_zero_le [LinearOrder K] [IsStrictOrderedRing K] {R : K} {xs : List K}
    (hx : ∀ x ∈ xs, 0 ≤ x ∧ x ≤ R) : deviations 0 xs ≤ R * xs.sum := by
  unfold deviations
  induction xs with
  | nil => simp
  | cons x xs ih =>
    obtain ⟨hhead, htail⟩ := List.forall_mem_cons.mp hx
    have hsquare : x * x ≤ R * x := mul_le_mul_of_nonneg_right hhead.2 hhead.1
    rw [List.map_cons, List.sum_cons, List.sum_cons, sub_zero, mul_add]
    exact add_le_add hsquare (ih htail)

theorem deviations_cast {L : Type} [CommRing L] (f : K →+* L) (c : K) (xs : List K) :
    f (deviations c xs) = deviations (f c) (xs.map f) := by
  unfold deviations
  rw [map_list_sum, List.map_map, List.map_map]
  congr 2
  funext x
  simp

end

/-! ## The mean -/

section
variable {K : Type} [Field K] [LinearOrder K] [IsStrictOrderedRing K]

def mean (xs : List K) : K := xs.sum / xs.length

/-- The population variance. -/
def populationVariance (xs : List K) : K := deviations (mean xs) xs / xs.length

/-- **Deviations from another number than the mean.** -/
theorem deviations_eq_add {xs : List K} (h : xs ≠ []) (c : K) :
    deviations c xs / xs.length = populationVariance xs + (mean xs - c) * (mean xs - c) := by
  have hlength : (xs.length : K) ≠ 0 := by
    rw [Nat.cast_ne_zero]
    exact fun h0 => h (List.length_eq_zero_iff.mp h0)
  rw [populationVariance, deviations_eq c, deviations_eq (mean xs), mean]
  field_simp
  ring

end

/-! ## The mean, rounded down -/

section
variable {R : Int} {xs : List Int}

/-- The sum of a list of numbers from `0` to `R`. -/
theorem sum_bounds (hx : ∀ x ∈ xs, 0 ≤ x ∧ x ≤ R) : 0 ≤ xs.sum ∧ xs.sum ≤ xs.length * R := by
  refine ⟨List.sum_nonneg fun x h => (hx x h).1, ?_⟩
  have h := List.sum_le_card_nsmul xs R fun x h => (hx x h).2
  rwa [nsmul_eq_mul] at h

/-- The rounded mean of numbers from `lo` to `hi`. -/
theorem le_mean_le (hne : xs ≠ []) {lo hi : Int} (hlo : ∀ x ∈ xs, lo ≤ x)
    (hhi : ∀ x ∈ xs, x ≤ hi) : lo ≤ xs.sum / xs.length ∧ xs.sum / xs.length ≤ hi := by
  have hlength : (0 : Int) < xs.length := by
    exact_mod_cast List.length_pos_iff.mpr hne
  have h1 := List.card_nsmul_le_sum xs lo hlo
  have h2 := List.sum_le_card_nsmul xs hi hhi
  rw [nsmul_eq_mul, mul_comm] at h1 h2
  constructor
  · exact (Int.le_ediv_iff_mul_le hlength).mpr h1
  · refine Int.lt_add_one_iff.mp ((Int.ediv_lt_iff_lt_mul hlength).mpr ?_)
    rw [add_mul]
    omega

/-- **The squared deviations from the rounded mean.** -/
theorem four_mul_deviations_le (hne : xs ≠ []) (hx : ∀ x ∈ xs, 0 ≤ x ∧ x ≤ R) :
    4 * deviations (xs.sum / xs.length) xs ≤ xs.length * (R ^ 2 + 4) := by
  have hlength : (0 : Int) < xs.length := by
    exact_mod_cast List.length_pos_iff.mpr hne
  have hzero := deviations_zero_le hx
  rw [deviations_eq]
  -- for the sum `n * a + r` and `u = R - 2 * a` the rest is `n * (u - 2)^2 + 4 * (n - r) * u`
  generalize hn : (xs.length : Int) = n at *
  have hsplit := Int.mul_ediv_add_emod xs.sum n
  have hr0 := Int.emod_nonneg xs.sum (ne_of_gt hlength)
  have hr := Int.emod_lt_of_pos xs.sum hlength
  generalize xs.sum / n = a at *
  generalize xs.sum % n = r at *
  rw [← hsplit] at hzero ⊢
  rcases le_or_gt (R - 2 * a) 0 with hu | hu
  · have hru : r * (R - 2 * a) ≤ 0 := mul_nonpos_of_nonneg_of_nonpos hr0 hu
    have hsquare : 0 ≤ n * ((R - 2 * a) ^ 2 + 4) := by positivity
    linarith only [hzero, hru, hsquare]
  · have hru : r * (R - 2 * a) ≤ n * (R - 2 * a) := mul_le_mul_of_nonneg_right hr.le hu.le
    have hsquare : 0 ≤ n * (R - 2 * a - 2) ^ 2 := by positivity
    linarith only [hzero, hru, hsquare]

theorem mean_cast (xs : List Int) :
    mean (xs.map (Int.cast : Int → ℚ)) = (xs.sum : ℚ) / (xs.length : ℕ) := by
  rw [mean, List.length_map]
  exact congrArg (· / (xs.length : ℚ)) (map_list_sum (Int.castRingHom ℚ) xs).symm

/-- The rounded mean. -/
theorem floor_mean (xs : List Int) :
    ⌊mean (xs.map (Int.cast : Int → ℚ))⌋ = xs.sum / xs.length := by
  rw [mean_cast]
  exact Rat.floor_intCast_div_natCast xs.sum xs.length

/-- **The rounded variance about the rounded mean** is within one of the variance: one
rounding adds less than one to it, and the other takes away less than one. -/
theorem abs_sub_populationVariance_lt (hne : xs ≠ []) :
    |((deviations (xs.sum / xs.length) xs / xs.length : Int) : ℚ) -
      populationVariance (xs.map (Int.cast : Int → ℚ))| < 1 := by
  have hne' : xs.map (Int.cast : Int → ℚ) ≠ [] := by
    rw [Ne, List.map_eq_nil_iff]
    exact hne
  have hadd := deviations_eq_add hne' ((xs.sum / xs.length : Int) : ℚ)
  have hcast : deviations ((xs.sum / xs.length : Int) : ℚ) (xs.map (Int.cast : Int → ℚ)) =
      (deviations (xs.sum / xs.length) xs : Int) := by
    exact (deviations_cast (Int.castRingHom ℚ) _ xs).symm
  have hfloor := Rat.floor_intCast_div_natCast (deviations (xs.sum / xs.length) xs) xs.length
  rw [hcast, List.length_map] at hadd
  rw [← hfloor, hadd]
  have hmean := floor_mean xs
  generalize mean (xs.map (Int.cast : Int → ℚ)) = μ at *
  generalize populationVariance (xs.map (Int.cast : Int → ℚ)) = V at *
  rw [← hmean]
  -- the shift `δ` of the mean is in `[0, 1)`, hence so is its square
  have h0 : 0 ≤ μ - ⌊μ⌋ := sub_nonneg.mpr (Int.floor_le μ)
  have h1 : μ - ⌊μ⌋ < 1 := Int.fract_lt_one μ
  have hsquare0 : 0 ≤ (μ - ⌊μ⌋) * (μ - ⌊μ⌋) := mul_nonneg h0 h0
  have hsquare1 : (μ - ⌊μ⌋) * (μ - ⌊μ⌋) < 1 := mul_lt_one_of_nonneg_of_lt_one_left h0 h1 h1.le
  have hle := Int.floor_le (V + (μ - ⌊μ⌋) * (μ - ⌊μ⌋))
  have hlt := Int.lt_floor_add_one (V + (μ - ⌊μ⌋) * (μ - ⌊μ⌋))
  rw [abs_lt]
  constructor <;> linarith

end

end Moments
