import EcrToolkit.Script
import EcrToolkit.SignedWords
import EcrToolkit.Moments

/-!
# The statistics are exact

`averageChecked` and `varianceChecked` do what `average` and `variance` do, on integers,
and give up at the first value that does not fit in a word of the shell.  Where they
give a value, `average` and `variance` give the same one (`average_of_checked`,
`variance_of_checked`).  They always give one for samples from `0` to `R` that are not too
many, and the value is the mean rounded down, and the variance up to less than one
(`statistics_exact`).
-/
namespace EcrToolkit

open SignedWords Moments

/-- `average`, with every intermediate value checked. -/
def averageChecked (temp : List Int) : Option Int := do
  let r ← temp.foldlM (fun (avg, count) i => do
    return (← checked 64 (avg + i), ← checked 64 (count + 1))) (0, 0)
  checked 64 (r.1.tdiv (if r.2 = 0 then 1 else r.2))

/-- `variance`, with every intermediate value checked. -/
def varianceChecked (avg : Int) (arr : List Int) : Option Int := do
  let r ← arr.foldlM (fun (var, count) i => do
    let count ← checked 64 (count + 1)
    let calc1 ← checked 64 (i - avg)
    let calc2 ← checked 64 (calc1 * calc1)
    return (← checked 64 (var + calc2), count)) (0, 0)
  checked 64 (r.1.tdiv (if r.2 = 0 then 1 else r.2))

/-! ## Without wrapping around, words are integers -/

/-- A sum and a count, in words. -/
def Holds (r : Int × Int) (b : BitVec 64 × BitVec 64) : Prop := b.1.toInt = r.1 ∧ b.2.toInt = r.2

theorem holds_zero : Holds (0, 0) (0, 0) := ⟨rfl, rfl⟩

theorem toInt_one : (1 : BitVec 64).toInt = 1 := by decide

theorem divisor_toInt (count : BitVec 64) :
    (divisor count).toInt = if count.toInt = 0 then 1 else count.toInt := by
  have hzero : count = 0 ↔ count.toInt = 0 := by
    rw [← BitVec.toInt_inj]
    rfl
  rw [divisor]
  by_cases h : count = 0
  · rw [if_pos h, if_pos (hzero.mp h)]
    exact toInt_one
  · rw [if_neg h, if_neg fun h' => h (hzero.mpr h')]

/-- The division at the end. -/
theorem Holds.sdiv {r : Int × Int} {b : BitVec 64 × BitVec 64} (hr : Holds r b) {u : Int}
    (h : checked 64 (r.1.tdiv (if r.2 = 0 then 1 else r.2)) = some u) :
    (b.1.sdiv (divisor b.2)).toInt = u := by
  refine toInt_sdiv_of_checked ?_
  rw [divisor_toInt, hr.1, hr.2]
  exact h

theorem Holds.count {r : Int × Int} {b : BitVec 64 × BitVec 64} (hr : Holds r b) {u : Int}
    (h : checked 64 (r.2 + 1) = some u) : (b.2 + 1).toInt = u := by
  refine toInt_add_of_checked ?_
  rw [hr.2, toInt_one]
  exact h

/-- **If no value of `average` wraps around**, it computes on integers. -/
theorem average_of_checked {xs : List Int} (hfits : ∀ x ∈ xs, Fits 64 x) {a : Int}
    (h : averageChecked xs = some a) : (average (xs.map (BitVec.ofInt 64))).toInt = a := by
  obtain ⟨r, hr, h⟩ := Option.bind_eq_some_iff.mp h
  have hloop : Holds r ((xs.map (BitVec.ofInt 64)).foldl
      (fun s i => (s.1 + i, s.2 + 1)) (0, 0)) := ?_
  · rw [average]
    exact hloop.sdiv h
  refine foldlM_simulates Holds ?_ holds_zero hr
  intro x hx s s' t hs hstep
  obtain ⟨avg, havg, hstep⟩ := Option.bind_eq_some_iff.mp hstep
  obtain ⟨count, hcount, hstep⟩ := Option.bind_eq_some_iff.mp hstep
  cases hstep
  refine ⟨toInt_add_of_checked ?_, hs.count hcount⟩
  rw [hs.1, toInt_ofInt_of_fits (hfits x hx)]
  exact havg

/-- **If no value of `variance` wraps around**, it computes on integers. -/
theorem variance_of_checked {avg : BitVec 64} {xs : List Int} (hfits : ∀ x ∈ xs, Fits 64 x)
    {v : Int} (h : varianceChecked avg.toInt xs = some v) :
    (variance avg (xs.map (BitVec.ofInt 64))).toInt = v := by
  obtain ⟨r, hr, h⟩ := Option.bind_eq_some_iff.mp h
  have hloop : Holds r ((xs.map (BitVec.ofInt 64)).foldl
      (fun s i => (s.1 + (i - avg) * (i - avg), s.2 + 1)) (0, 0)) := ?_
  · rw [variance]
    exact hloop.sdiv h
  refine foldlM_simulates Holds ?_ holds_zero hr
  intro x hx s s' t hs hstep
  obtain ⟨count, hcount, hstep⟩ := Option.bind_eq_some_iff.mp hstep
  obtain ⟨calc1, hcalc1, hstep⟩ := Option.bind_eq_some_iff.mp hstep
  obtain ⟨calc2, hcalc2, hstep⟩ := Option.bind_eq_some_iff.mp hstep
  obtain ⟨var, hvar, hstep⟩ := Option.bind_eq_some_iff.mp hstep
  cases hstep
  have hdiff : (BitVec.ofInt 64 x - avg).toInt = calc1 := by
    refine toInt_sub_of_checked ?_
    rw [toInt_ofInt_of_fits (hfits x hx)]
    exact hcalc1
  have hsquare : ((BitVec.ofInt 64 x - avg) * (BitVec.ofInt 64 x - avg)).toInt = calc2 := by
    refine toInt_mul_of_checked ?_
    rw [hdiff]
    exact hcalc2
  refine ⟨toInt_add_of_checked ?_, hs.count hcount⟩
  rw [hs.1, hsquare]
  exact hvar

/-! ## Samples from `0` to `R` -/

section
variable {xs : List Int} {R : Int}

/-- The samples are from `0` to `R`, and they are not too many. -/
structure Bounded (xs : List Int) (R : Int) : Prop where
  ne_nil : xs ≠ []
  range : ∀ x ∈ xs, 0 ≤ x ∧ x ≤ R
  size : xs.length * (R ^ 2 + 4) < 2 ^ 65

/-- What is at most a quarter of `n * (R^2 + 4)` fits. -/
theorem Bounded.fits (h : Bounded xs R) {u : Int} (hu : 0 ≤ u)
    (hle : 4 * u ≤ xs.length * (R ^ 2 + 4)) : Fits 64 u := by
  have hsize := h.size
  constructor <;> omega

theorem Bounded.length_pos (h : Bounded xs R) : (0 : Int) < xs.length := by
  exact_mod_cast List.length_pos_iff.mpr h.ne_nil

theorem Bounded.fits_length (h : Bounded xs R) : Fits 64 xs.length := by
  have hn := h.length_pos
  refine h.fits hn.le ?_
  have hR : 0 ≤ xs.length * R ^ 2 := mul_nonneg hn.le (sq_nonneg R)
  linarith only [hR]

theorem Bounded.fits_sum (h : Bounded xs R) : Fits 64 xs.sum := by
  obtain ⟨h0, hle⟩ := sum_bounds h.range
  refine h.fits h0 ?_
  have hR : 0 ≤ xs.length * (R - 2) ^ 2 := mul_nonneg h.length_pos.le (sq_nonneg (R - 2))
  linarith only [hle, hR]

theorem Bounded.fits_mem (h : Bounded xs R) {x : Int} (hx : x ∈ xs) : Fits 64 x := by
  exact (fits_zero 64).of_between h.fits_sum (h.range x hx).1
    (List.single_le_sum (fun y hy => (h.range y hy).1) x hx)

theorem Bounded.fits_deviations (h : Bounded xs R) :
    Fits 64 (deviations (xs.sum / xs.length) xs) :=
  h.fits (deviations_nonneg _ xs) (four_mul_deviations_le h.ne_nil h.range)

/-- The division at the end of both functions. -/
theorem Bounded.checked_tdiv (h : Bounded xs R) {u : Int} (hu : 0 ≤ u) (hfits : Fits 64 u) :
    checked 64 (u.tdiv (if (xs.length : Int) = 0 then 1 else xs.length)) =
      some (u / xs.length) := by
  have hn := h.length_pos
  rw [if_neg hn.ne', Int.tdiv_eq_ediv_of_nonneg hu]
  exact checked_of_fits (hfits.ediv hu hn.le)

/-- **`average` does not wrap around.** -/
theorem Bounded.averageChecked_eq (h : Bounded xs R) :
    averageChecked xs = some (xs.sum / xs.length) := by
  have hloop : xs.foldlM (fun ((avg, count) : Int × Int) i => do
      return (← checked 64 (avg + i), ← checked 64 (count + 1))) (0, 0) =
      some (0 + (xs.map fun i => i).sum, 0 + (xs.length : Int)) := by
    refine foldlM_add_count 64 (fun i => i) ?_ (fun i hi => (h.range i hi).1) (by decide) ?_ ?_
    · rintro i _ ⟨avg, count⟩ havg hcount
      simp only [checked_of_fits havg, checked_of_fits hcount]
      rfl
    · rw [Int.zero_add, List.map_id']
      exact h.fits_sum
    · rw [Int.zero_add]
      exact h.fits_length
  rw [List.map_id', Int.zero_add, Int.zero_add] at hloop
  rw [averageChecked, hloop]
  exact h.checked_tdiv (sum_bounds h.range).1 h.fits_sum

/-- **`variance` does not wrap around**, about the rounded mean. -/
theorem Bounded.varianceChecked_eq (h : Bounded xs R) :
    varianceChecked (xs.sum / xs.length) xs =
      some (deviations (xs.sum / xs.length) xs / xs.length) := by
  have hsum0 := (sum_bounds h.range).1
  have hmean0 := Int.ediv_nonneg hsum0 h.length_pos.le
  have hmean := h.fits_sum.ediv hsum0 h.length_pos.le
  have hdeviations := h.fits_deviations
  generalize xs.sum / xs.length = a at *
  have hloop : xs.foldlM (fun ((var, count) : Int × Int) i => do
      let count ← checked 64 (count + 1)
      let calc1 ← checked 64 (i - a)
      let calc2 ← checked 64 (calc1 * calc1)
      return (← checked 64 (var + calc2), count)) (0, 0) =
      some (0 + deviations a xs, 0 + (xs.length : Int)) := by
    refine foldlM_add_count 64 (fun i => (i - a) * (i - a)) ?_
      (fun i _ => mul_self_nonneg (i - a)) (by decide) ?_ ?_
    · rintro i hi ⟨var, count⟩ hvar hcount
      have hcalc1 : Fits 64 (i - a) := (h.fits_mem hi).sub hmean (h.range i hi).1 hmean0
      have hcalc2 : Fits 64 ((i - a) * (i - a)) :=
        (fits_zero 64).of_between hdeviations (mul_self_nonneg (i - a)) (le_deviations a hi)
      simp only [checked_of_fits hcount, checked_of_fits hcalc1, checked_of_fits hcalc2,
        checked_of_fits hvar, Option.bind_eq_bind, Option.bind_some]
      rfl
    · rw [Int.zero_add]
      exact hdeviations
    · rw [Int.zero_add]
      exact h.fits_length
  rw [Int.zero_add, Int.zero_add] at hloop
  rw [varianceChecked, hloop]
  exact h.checked_tdiv (deviations_nonneg a xs) hdeviations

end

/-- **The statistics are exact**: nothing wraps around, the average is the mean rounded
down, and the variance about it is the population variance up to less than one. -/
theorem statistics_exact {xs : List Int} {R : Int} (hne : xs ≠ [])
    (hx : ∀ x ∈ xs, 0 ≤ x ∧ x ≤ R) (hsize : xs.length * (R ^ 2 + 4) < 2 ^ 65) :
    ∃ a v : Int, averageChecked xs = some a ∧ varianceChecked a xs = some v ∧
      (average (xs.map (BitVec.ofInt 64))).toInt = a ∧
      (variance (average (xs.map (BitVec.ofInt 64))) (xs.map (BitVec.ofInt 64))).toInt = v ∧
      (xs.min hne ≤ a ∧ a ≤ xs.max hne) ∧ a = ⌊mean (xs.map (Int.cast : Int → ℚ))⌋ ∧
      0 ≤ v ∧ |(v : ℚ) - populationVariance (xs.map (Int.cast : Int → ℚ))| < 1 := by
  have h : Bounded xs R := ⟨hne, hx, hsize⟩
  have hfits : ∀ x ∈ xs, Fits 64 x := fun x hx => h.fits_mem hx
  have havg := average_of_checked hfits h.averageChecked_eq
  have hvar : (variance (average (xs.map (BitVec.ofInt 64))) (xs.map (BitVec.ofInt 64))).toInt =
      deviations (xs.sum / xs.length) xs / xs.length := by
    refine variance_of_checked hfits ?_
    rw [havg]
    exact h.varianceChecked_eq
  refine ⟨_, _, h.averageChecked_eq, h.varianceChecked_eq, havg, hvar, ?_, ?_, ?_, ?_⟩
  · exact le_mean_le hne (fun x hx => List.min_le_of_mem hx) fun x hx => List.le_max_of_mem hx
  · exact (floor_mean xs).symm
  · exact Int.ediv_nonneg (deviations_nonneg _ xs) h.length_pos.le
  · exact abs_sub_populationVariance_lt hne

/-- Fifteen samples below a second, as far apart as they can be. -/
def fifteenSamples : List Int := List.replicate 8 0 ++ List.replicate 7 999999999

theorem statistics_fifteen :
    ∃ a v : Int, averageChecked fifteenSamples = some a ∧
      varianceChecked a fifteenSamples = some v ∧
      (average (fifteenSamples.map (BitVec.ofInt 64))).toInt = a ∧
      (variance (average (fifteenSamples.map (BitVec.ofInt 64)))
        (fifteenSamples.map (BitVec.ofInt 64))).toInt = v ∧
      (0 ≤ a ∧ a ≤ 999999999) ∧ a = ⌊mean (fifteenSamples.map (Int.cast : Int → ℚ))⌋ ∧
      0 ≤ v ∧ |(v : ℚ) - populationVariance (fifteenSamples.map (Int.cast : Int → ℚ))| < 1 := by
  have hrange : ∀ x ∈ fifteenSamples, 0 ≤ x ∧ x ≤ 999999999 := by decide
  exact statistics_exact (by decide) hrange (by decide)

end EcrToolkit
