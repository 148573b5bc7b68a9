import EcrToolkit.Script
import Mathlib.Logic.Function.Basic

/-!
# The column "Probable Exit"

`evaluate_exiting` compares the averages of an instruction with those of `CPUID`,
which exits under a hypervisor, and of `XOR`, which does not.  It compares signed
differences, `CPUID - t` with `t - XOR`, not distances: `clockSays_iff` says that
this asks on which side of the midpoint `t` is, and `agrees_iff` when that is the
side of the nearer baseline.

The baselines are shell variables that the statistics loop names after the measured
instructions, so with `-f` they are never set.
-/
namespace EcrToolkit

/-! ## `evaluate_exiting` -/

/-- `wall_avg_CPUID`, `wall_avg_XOR`, `nop_avg_CPUID` and `nop_avg_XOR`. -/
structure Baselines where
  wallAvgCpuid : BitVec 64
  wallAvgXor : BitVec 64
  nopAvgCpuid : BitVec 64
  nopAvgXor : BitVec 64

/-- The value of `exiting` that `evaluate_exiting` prints. -/
def evaluateExiting (b : Baselines) (temp1 temp2 : BitVec 64) : String :=
  let wallHigh := b.wallAvgCpuid - temp1
  let wallLow := temp1 - b.wallAvgXor
  let nopHigh := b.nopAvgCpuid - temp2
  let nopLow := temp2 - b.nopAvgXor
  if wallHigh.slt wallLow && nopHigh.slt nopLow then "X"
  else if wallHigh.slt wallLow || nopHigh.slt nopLow then "?"
  else ""

/-- What one clock says: `high` is less than `low`. -/
def clockSays (cpuid xor t : BitVec 64) : Bool := (cpuid - t).slt (t - xor)

theorem evaluateExiting_eq (b : Baselines) (t1 t2 : BitVec 64) : evaluateExiting b t1 t2 =
    if clockSays b.wallAvgCpuid b.wallAvgXor t1 && clockSays b.nopAvgCpuid b.nopAvgXor t2 then "X"
    else if clockSays b.wallAvgCpuid b.wallAvgXor t1 || clockSays b.nopAvgCpuid b.nopAvgXor t2
      then "?"
    else "" := rfl

/-! ## Distances -/

/-- `t` is nearer to `cpuid` than to `xor`. -/
def Nearer (cpuid xor t : Int) : Prop := (cpuid - t).natAbs < (t - xor).natAbs

instance (cpuid xor t : Int) : Decidable (Nearer cpuid xor t) := inferInstanceAs (Decidable (_ < _))

/-- The two differences of a clock do not overflow. -/
def NoOverflow (cpuid xor t : BitVec 64) : Prop :=
  cpuid.ssubOverflow t = false ∧ t.ssubOverflow xor = false

instance (cpuid xor t : BitVec 64) : Decidable (NoOverflow cpuid xor t) :=
  inferInstanceAs (Decidable (_ ∧ _))

/-- **A clock says on which side of the midpoint `t` is.** -/
theorem clockSays_iff {cpuid xor t : BitVec 64} (h : NoOverflow cpuid xor t) :
    clockSays cpuid xor t = true ↔ cpuid.toInt + xor.toInt < 2 * t.toInt := by
  have hhigh : (cpuid - t).toInt = cpuid.toInt - t.toInt :=
    BitVec.toInt_sub_of_not_ssubOverflow (by rw [h.1]; decide)
  have hlow : (t - xor).toInt = t.toInt - xor.toInt :=
    BitVec.toInt_sub_of_not_ssubOverflow (by rw [h.2]; decide)
  rw [clockSays, BitVec.slt, decide_eq_true_eq, hhigh, hlow]
  omega

/-- Where the side of the midpoint is the side of the nearer baseline: `xor` is below
`cpuid`, or `t` is on neither side, or both are the same and `t` is not above them. -/
def ClockAgrees (cpuid xor t : Int) : Prop :=
  xor < cpuid ∨ (xor = cpuid ∧ t ≤ cpuid) ∨ (cpuid < xor ∧ 2 * t = cpuid + xor)

instance (cpuid xor t : Int) : Decidable (ClockAgrees cpuid xor t) :=
  inferInstanceAs (Decidable (_ ∨ _))

theorem agrees_iff (cpuid xor t : Int) :
    (cpuid + xor < 2 * t ↔ Nearer cpuid xor t) ↔ ClockAgrees cpuid xor t := by
  unfold Nearer ClockAgrees
  omega

/-- The flag of a nearest-baseline classifier, for averages `t1` and `t2`. -/
def nearestBaseline (b : Baselines) (t1 t2 : BitVec 64) : String :=
  let w := Nearer b.wallAvgCpuid.toInt b.wallAvgXor.toInt t1.toInt
  let n := Nearer b.nopAvgCpuid.toInt b.nopAvgXor.toInt t2.toInt
  if w ∧ n then "X" else if w ∨ n then "?" else ""

/-- The flag is the nearest baseline's: both clocks agree with the distances, or they
both disagree and say different things. -/
def FlagAgrees (b : Baselines) (t1 t2 : BitVec 64) : Prop :=
  (ClockAgrees b.wallAvgCpuid.toInt b.wallAvgXor.toInt t1.toInt ∧
      ClockAgrees b.nopAvgCpuid.toInt b.nopAvgXor.toInt t2.toInt) ∨
    (¬ ClockAgrees b.wallAvgCpuid.toInt b.wallAvgXor.toInt t1.toInt ∧
      ¬ ClockAgrees b.nopAvgCpuid.toInt b.nopAvgXor.toInt t2.toInt ∧
      (b.wallAvgCpuid.toInt + b.wallAvgXor.toInt < 2 * t1.toInt ↔
        ¬ b.nopAvgCpuid.toInt + b.nopAvgXor.toInt < 2 * t2.toInt))

/-- Two verdicts of two clocks give the same flag. -/
theorem flag_eq_iff (w n w' n' : Prop) [Decidable w] [Decidable n] [Decidable w'] [Decidable n'] :
    (if w ∧ n then "X" else if w ∨ n then "?" else "") =
        (if w' ∧ n' then "X" else if w' ∨ n' then "?" else "") ↔
      ((w ↔ w') ∧ (n ↔ n')) ∨ (¬ (w ↔ w') ∧ ¬ (n ↔ n') ∧ (w ↔ ¬ n)) := by
  by_cases hw : w <;> by_cases hn : n <;> by_cases hw' : w' <;> by_cases hn' : n' <;>
    simp [hw, hn, hw', hn']

/-- **The flag is that of the nearest baseline** exactly where `FlagAgrees` says. -/
theorem evaluateExiting_eq_nearest_iff (b : Baselines) (t1 t2 : BitVec 64)
    (hw : NoOverflow b.wallAvgCpuid b.wallAvgXor t1)
    (hn : NoOverflow b.nopAvgCpuid b.nopAvgXor t2) :
    evaluateExiting b t1 t2 = nearestBaseline b t1 t2 ↔ FlagAgrees b t1 t2 := by
  rw [evaluateExiting_eq, nearestBaseline, FlagAgrees, ← agrees_iff, ← agrees_iff]
  simp only [Bool.and_eq_true, Bool.or_eq_true, clockSays_iff hw, clockSays_iff hn]
  exact flag_eq_iff _ _ _ _

/-- Baselines in the usual order, and an instruction that one clock finds slow. -/
theorem evaluateExiting_usual :
    evaluateExiting ⟨100, 10, 90, 20⟩ 80 30 = nearestBaseline ⟨100, 10, 90, 20⟩ 80 30 :=
  (evaluateExiting_eq_nearest_iff ⟨100, 10, 90, 20⟩ 80 30 (by decide) (by decide)).mpr
    (Or.inl ⟨by decide, by decide⟩)

/-- **The flag is not always that of the nearest baseline**: here `CPUID` was measured
faster than `XOR`, and `t` is above both. -/
theorem evaluateExiting_not_nearest :
    ¬ ∀ (b : Baselines) (t1 t2 : BitVec 64), NoOverflow b.wallAvgCpuid b.wallAvgXor t1 →
      NoOverflow b.nopAvgCpuid b.nopAvgXor t2 →
        evaluateExiting b t1 t2 = nearestBaseline b t1 t2 := by
  intro hall
  have h := hall ⟨10, 20, 10, 20⟩ 30 30 (by decide) (by decide)
  exact absurd h (by decide)

/-! ## The shell variables -/

/-- The two clocks. -/
inductive Clock
  | wall
  | nop
  deriving DecidableEq

/-- `wall_avg_$j` and `nop_avg_$j`. -/
def Clock.avg : Clock → String → String
  | .wall, j => "wall_avg_" ++ j
  | .nop, j => "nop_avg_" ++ j

/-- The variables of the shell; `none` is a variable that is not set. -/
def Vars := String → Option (BitVec 64)

/-- A fresh shell. -/
def Vars.empty : Vars := fun _ => none

/-- In an arithmetic expansion a variable that is not set is `0`. -/
def Vars.value (v : Vars) (name : String) : BitVec 64 := (v name).getD 0

def Vars.set (v : Vars) (name : String) (x : BitVec 64) : Vars := Function.update v name (some x)

/-- The array `instructions` of a run. -/
def instructionArray (flush : Bool) : List String :=
  if flush then flushInstructions else standardInstructions

/-- The statistics loop: `eval wall_avg_$j=...` and `eval nop_avg_$j=...`. -/
def statisticsLoop (samples : Clock → String → List (BitVec 64)) : List String → Vars → Vars
  | [], v => v
  | j :: js, v =>
    statisticsLoop samples js
      ((v.set (Clock.wall.avg j) (average (samples .wall j))).set (Clock.nop.avg j)
        (average (samples .nop j)))

/-- What `evaluate_exiting` finds. -/
def Vars.baselines (v : Vars) : Baselines :=
  ⟨v.value "wall_avg_CPUID", v.value "wall_avg_XOR", v.value "nop_avg_CPUID",
    v.value "nop_avg_XOR"⟩

/-- What a run that reaches the table has measured. -/
structure Samples where
  flush : Bool
  samples : Clock → String → List (BitVec 64)

/-- The variables after the statistics loop. -/
def Samples.vars (s : Samples) : Vars :=
  statisticsLoop s.samples (instructionArray s.flush) .empty

theorem Vars.set_same (v : Vars) (name : String) (x : BitVec 64) : v.set name x name = some x :=
  Function.update_self ..

theorem Vars.set_of_ne (v : Vars) {name name' : String} (x : BitVec 64) (h : name' ≠ name) :
    v.set name x name' = v name' :=
  Function.update_of_ne h ..

/-- The names are different. -/
theorem Clock.avg_inj {c c' : Clock} {j k : String} (h : c.avg j = c'.avg k) : c = c' ∧ j = k := by
  have hl := congrArg String.toList h
  cases c <;> cases c'
  case wall.wall | nop.nop =>
    rw [Clock.avg, Clock.avg, String.toList_append, String.toList_append] at hl
    exact ⟨rfl, String.toList_inj.mp (List.append_cancel_left hl)⟩
  all_goals
    rw [Clock.avg, Clock.avg, String.toList_append, String.toList_append] at hl
    exact absurd (List.cons.inj hl).1 (by decide)

/-- **The averages that are set** are those of the measured instructions. -/
theorem statisticsLoop_avg (samples : Clock → String → List (BitVec 64)) (js : List String)
    (v : Vars) (c : Clock) (j : String) : statisticsLoop samples js v (c.avg j) =
      if j ∈ js then some (average (samples c j)) else v (c.avg j) := by
  induction js generalizing v with
  | nil => rfl
  | cons k js ih =>
    rw [statisticsLoop, ih]
    by_cases hjs : j ∈ js
    · rw [if_pos hjs, if_pos (List.mem_cons_of_mem k hjs)]
    · rw [if_neg hjs]
      by_cases hjk : j = k
      · subst hjk
        rw [if_pos List.mem_cons_self]
        cases c with
        | nop => exact Vars.set_same ..
        | wall =>
          have hne : Clock.wall.avg j ≠ Clock.nop.avg j := fun h => nomatch (Clock.avg_inj h).1
          rw [Vars.set_of_ne _ _ hne]
          exact Vars.set_same ..
      · have hne : ∀ c', c.avg j ≠ Clock.avg c' k := fun c' h => hjk (Clock.avg_inj h).2
        rw [Vars.set_of_ne _ _ (hne .nop), Vars.set_of_ne _ _ (hne .wall),
          if_neg fun h => (List.mem_cons.mp h).elim hjk hjs]

/-! ## The averages -/

/-- The average of instruction `j`, as the script reads it. -/
def Samples.avg (s : Samples) (c : Clock) (j : String) : BitVec 64 := s.vars.value (c.avg j)

theorem Samples.avg_of_notMem {s : Samples} (c : Clock) {j : String}
    (h : j ∉ instructionArray s.flush) : s.avg c j = 0 := by
  rw [Samples.avg, Vars.value, Samples.vars, statisticsLoop_avg, if_neg h]
  rfl

end EcrToolkit
