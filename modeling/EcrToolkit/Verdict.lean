import EcrToolkit.ExitFlagEval
import Mathlib.Algebra.Ring.Int.Defs

/-!
# The verdict of a run

The exit-flag loop stores a flag by executing text: what `echo`, the substitution and the
expansion of the word make of it.  For the flag `?` that text depends on the files of the
working directory, and some directories turn a `?` into an `X`.

`verdictsRelative_iff` says when an `X` is relative to baselines of the same run.
-/
namespace EcrToolkit

open TextTools Expansion

/-! ## The flags of a run -/

/-- A run that reaches the table.  `directory j` is the working directory in which
`exit_flag_$j` is stored, and `other j` what is in that variable where `eval` has executed
more than an assignment of literal text. -/
structure TableRun extends Samples where
  directory : Instruction → Directory
  other : Instruction → Line → Line

/-- What is in `exit_flag_$j` when `eval` has executed a command. -/
def TableRun.stored (r : TableRun) (j : Instruction) (command : Line) : Line :=
  match assignment? command with
  | some (name, value) => if name = flagVariable j then value else r.other j command
  | none => r.other j command

/-- The value that `evaluate_exiting` gives `exiting`. -/
def Samples.exiting (s : Samples) (j : String) : String :=
  evaluateExiting s.vars.baselines (s.avg .wall j) (s.avg .nop j)

/-- `exit_flag_$j` after the exit-flag loop and the two assignments that follow it. -/
def TableRun.exitFlag (r : TableRun) (j : Instruction) : Line :=
  if j.1 = "INB" ∨ j.1 = "OUTB" then "-".toList
  else r.stored j (evalCommand (r.directory j) j r.vars.baselines (r.avg .wall j.1)
    (r.avg .nop j.1))

/-- The comparison of one clock. -/
def Samples.favoursX (s : Samples) (c : Clock) (j : String) : Bool :=
  clockSays (s.avg c "CPUID") (s.avg c "XOR") (s.avg c j)

variable {r : TableRun} {j : Instruction}

theorem Samples.exiting_eq (s : Samples) (j : String) : s.exiting j =
    if s.favoursX .wall j && s.favoursX .nop j then "X"
    else if s.favoursX .wall j || s.favoursX .nop j then "?" else "" := rfl

theorem TableRun.stored_of_assigned {command value : Line}
    (h : assignment? command = some (flagVariable j, value)) : r.stored j command = value := by
  unfold TableRun.stored
  rw [h]
  exact if_pos rfl

/-- A flag that no file stands in for is stored as it is. -/
theorem TableRun.exitFlag_of_kept (hj : ¬ (j.1 = "INB" ∨ j.1 = "OUTB"))
    (h : r.exiting j.1 = "?" → Harmless (r.directory j) j) :
    r.exitFlag j = (r.exiting j.1).toList := by
  rw [TableRun.exitFlag, if_neg hj]
  by_cases hquestion : r.exiting j.1 = "?"
  · have hflag := flagIn_of_harmless hquestion (h hquestion).1
    rw [hquestion]
    exact TableRun.stored_of_assigned ((assigned_question_iff hflag).mpr (h hquestion).2)
  · obtain ⟨hflag, hplain⟩ := flagIn_of_ne (d := r.directory j) hquestion
    exact TableRun.stored_of_assigned (assigned_plain hflag hplain)

/-- The average was measured in this run: there were samples, and the variable is set. -/
def Samples.Measured (s : Samples) (c : Clock) (j : String) : Prop :=
  s.vars (c.avg j) ≠ none ∧ s.samples c j ≠ []

/-- The order of the baselines that goes with what a clock says: `XOR` below `CPUID` where
it favours an `X`, and where `t - xor` overflows; else `CPUID` below `XOR`, and `t` below
the midpoint. -/
def InOrder (cpuid xor t : BitVec 64) : Prop :=
  if clockSays cpuid xor t = true ∨ 2 ^ 63 ≤ t.toInt - xor.toInt then xor.toInt < cpuid.toInt
  else cpuid.toInt < xor.toInt ∧ 2 * t.toInt < cpuid.toInt + xor.toInt

end EcrToolkit
