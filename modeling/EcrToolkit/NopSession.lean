import EcrToolkit.NopTimer
import Mathlib.Data.Fintype.Basic

/-!
# Calls of `nop_timing_start`, one after another

The globals of `nop_timer.c` belong to one call at a time: from its first store to
its read of `instr_th` for the last `kthread_stop` (`CallPc.InSection`).  In a run
whose calls never begin inside another call's section (`Serial`), and whose
`kthread_create`s succeed (`Creates`), every call keeps its own threads to itself.
`Inv` says so: what each call's stage says about its two threads (`Own`), what the
globals hold for the call in its section (`Owner`), and that there is at most one.
-/
namespace EcrToolkit.NopTimer

open Transitions

/-- How far a call has come. -/
def CallPc.stage {ι : Type} : CallPc ι → Nat
  | .notCalled => 0
  | .clearReset => 1
  | .clearPrint => 2
  | .clearFinish => 3
  | .createNop => 4
  | .createInstr => 5
  | .testNop => 6
  | .testInstr => 7
  | .bindNop => 8
  | .bindInstr => 9
  | .wakeNop => 10
  | .wakeInstr => 11
  | .poll => 12
  | .sleep => 12
  | .stopNop => 13
  | .joinNop _ => 14
  | .stopInstr => 15
  | .joinInstr _ => 16
  | .returned => 17
  | .faulted => 18

/-- The call has executed its first statement and has not yet read `instr_th`
for `kthread_stop`: it is between its first and its last use of the globals. -/
def CallPc.InSection {ι : Type} (c : CallPc ι) : Prop := 1 ≤ c.stage ∧ c.stage ≤ 15

/-- The INSTR thread waits for `reset_count` to become false. -/
def InstrPc.awaitsReset : InstrPc → Bool
  | .atLoop _ .spinReset _ | .atLoop _ .spinResetStop _ => true
  | _ => false

/-- The INSTR thread waits for `print_count` to become false. -/
def InstrPc.awaitsPrint : InstrPc → Bool
  | .atLoop _ .spinPrint _ | .atLoop _ .spinPrintStop _ => true
  | _ => false

variable {ι : Type}

/-- The INSTR thread has executed `finish = true`. -/
def InstrThread.Done (t : InstrThread) : Prop := t.pc = .doExit ∨ t.pc = .exited

/-- **Serialised calls**: a call begins only when no other call is in its section. -/
def Serial (s : State ι) : Action ι → Prop
  | .begin _ _ => ∀ j, ¬ (s.call j).pc.InSection
  | _ => True

instance (c : CallPc ι) : Decidable c.InSection := inferInstanceAs (Decidable (_ ∧ _))

instance [Fintype ι] (s : State ι) : (a : Action ι) → Decidable (Serial s a)
  | .begin _ _ => inferInstanceAs (Decidable (∀ j, ¬ (s.call j).pc.InSection))
  | .call _ _ | .nop _ | .instr _ _ | .sigkill _ => isTrue trivial

/-- Thread creation succeeds. -/
def Creates (_ : State ι) : Action ι → Prop
  | .call _ err => err = none
  | _ => True

instance (s : State ι) : (a : Action ι) → Decidable (Creates s a)
  | .call _ err => inferInstanceAs (Decidable (err = none))
  | .begin _ _ | .nop _ | .instr _ _ | .sigkill _ => isTrue trivial

/-- No SIGKILL is delivered. -/
def NoKill (_ : State ι) : Action ι → Prop
  | .sigkill _ => False
  | _ => True

/-- At least two CPUs are online. -/
def TwoCpus (_ : State ι) : Action ι → Prop
  | .instr _ env => 2 ≤ env.numOnlineCpus
  | _ => True

instance (s : State ι) : (a : Action ι) → Decidable (NoKill s a)
  | .sigkill _ => isFalse id
  | .begin _ _ | .call _ _ | .nop _ | .instr _ _ => isTrue trivial

instance (s : State ι) : (a : Action ι) → Decidable (TwoCpus s a)
  | .instr _ env => inferInstanceAs (Decidable (2 ≤ env.numOnlineCpus))
  | .begin _ _ | .call _ _ | .nop _ | .sigkill _ => isTrue trivial

/-! ## Steps leave the rest of the state alone -/

section Updates
variable (s : State ι)

@[simp] theorem setGlobals_globals (g : Globals ι) : (s.setGlobals g).globals = g := rfl
@[simp] theorem setGlobals_call (g : Globals ι) : (s.setGlobals g).call = s.call := rfl
@[simp] theorem setGlobals_nop (g : Globals ι) : (s.setGlobals g).nop = s.nop := rfl
@[simp] theorem setGlobals_instr (g : Globals ι) : (s.setGlobals g).instr = s.instr := rfl

variable [DecidableEq ι] (i j : ι)

@[simp] theorem goto_globals (pc : CallPc ι) : (s.goto i pc).globals = s.globals := rfl
@[simp] theorem goto_nop (pc : CallPc ι) : (s.goto i pc).nop = s.nop := rfl
@[simp] theorem goto_instr (pc : CallPc ι) : (s.goto i pc).instr = s.instr := rfl

@[simp] theorem goto_call_self (pc : CallPc ι) :
    (s.goto i pc).call i = { s.call i with pc := pc } := by
  simp [State.goto]

@[simp] theorem goto_call_of_ne (pc : CallPc ι) {i j : ι} (h : j ≠ i) :
    (s.goto i pc).call j = s.call j := by
  simp [State.goto, h]

@[simp] theorem setNop_globals (t : NopThread) : (s.setNop j t).globals = s.globals := rfl
@[simp] theorem setNop_call (t : NopThread) : (s.setNop j t).call = s.call := rfl
@[simp] theorem setNop_instr (t : NopThread) : (s.setNop j t).instr = s.instr := rfl

@[simp] theorem setNop_nop_self (t : NopThread) : (s.setNop j t).nop j = t := by
  simp [State.setNop]

@[simp] theorem setNop_nop_of_ne (t : NopThread) {i j : ι} (h : i ≠ j) :
    (s.setNop j t).nop i = s.nop i := by
  simp [State.setNop, h]

@[simp] theorem setInstr_globals (t : InstrThread) : (s.setInstr j t).globals = s.globals := rfl
@[simp] theorem setInstr_call (t : InstrThread) : (s.setInstr j t).call = s.call := rfl
@[simp] theorem setInstr_nop (t : InstrThread) : (s.setInstr j t).nop = s.nop := rfl

@[simp] theorem setInstr_instr_self (t : InstrThread) : (s.setInstr j t).instr j = t := by
  simp [State.setInstr]

@[simp] theorem setInstr_instr_of_ne (t : InstrThread) {i j : ι} (h : i ≠ j) :
    (s.setInstr j t).instr i = s.instr i := by
  simp [State.setInstr, h]

end Updates

/-! ## What one statement of a thread can do -/

/-- A statement of `nop_f` changes neither the thread pointers nor `finish`, and
of the thread only the place it is at. -/
structure NopStep (g : Globals ι) (pending : Option Bool) (t : NopThread) (g' : Globals ι)
    (t' : NopThread) : Prop where
  nopTh : g'.nopTh = g.nopTh
  instrTh : g'.instrTh = g.instrTh
  finish : g'.finish = g.finish
  awake : t.awake = true ∧ t'.awake = true
  shouldStop : t'.shouldStop = t.shouldStop
  sigPending : t'.sigPending = t.sigPending
  running : t.pc ≠ .notCreated ∧ t.pc ≠ .exited
  created : t'.pc ≠ .notCreated
  faulted : t'.pc = .faulted → pending = none
  leaves : t'.pc = .doExit → g' = g ∧
    (t.pc = .testStop ∧ t.shouldStop = true ∨ t.pc = .testSignal ∧ pending = some true)
  exits : t'.pc = .exited → g' = g ∧ (t.pc = .doExit ∨ t.pc = .created ∧ t.shouldStop = true)

theorem nopF_step {i : ι} {g g' : Globals ι} {pending : Option Bool} {t t' : NopThread}
    {es : List (Event ι)} (h : nopF i g pending t = some (es, g', t')) :
    NopStep g pending t g' t' := by
  unfold nopF at h
  split at h
  case isFalse => cases h
  case isTrue hawake =>
    cases hpc : t.pc <;> simp only [hpc] at h
    case notCreated | exited | faulted => cases h
    case testSignal =>
      rcases pending with _ | _ | _ <;> cases h <;> constructor <;> simp [hawake, hpc]
    case created | testStop =>
      cases h
      by_cases hstop : t.shouldStop = true <;> constructor <;> simp [hawake, hpc, hstop]
    case testReset =>
      cases h
      by_cases hreset : g.resetCount = true <;> constructor <;> simp [hawake, hpc, hreset]
    case testPrint =>
      cases h
      by_cases hprint : g.printCount = true <;> constructor <;> simp [hawake, hpc, hprint]
    all_goals
      cases h
      constructor <;> simp [hawake, hpc]

/-- A statement of the INSTR thread changes no thread pointer, sets `finish` only
by its `finish = true`, and of the thread keeps everything but its place and its
CPU's interrupt flag. -/
structure InstrStep (g : Globals ι) (t : InstrThread) (g' : Globals ι) (t' : InstrThread) :
    Prop where
  nopTh : g'.nopTh = g.nopTh
  instrTh : g'.instrTh = g.instrTh
  count : g'.count = g.count
  awake : t.awake = true ∧ t'.awake = true
  shouldStop : t'.shouldStop = t.shouldStop
  action : t'.action = t.action
  running : t.pc ≠ .notCreated ∧ t.pc ≠ .exited
  created : t'.pc ≠ .notCreated
  finishes : (t.pc = .setFinish ∧ g'.finish = true ∧ t'.pc = .doExit) ∨
    (t.pc = .doExit ∧ g' = g ∧ t'.pc = .exited) ∨
    (t.pc = .created ∧ t.shouldStop = true ∧ g' = g) ∨
    (¬ t.Done ∧ g'.finish = g.finish ∧ ¬ t'.Done)

theorem nextLoop_not_done (ls : List TimingLoop) :
    nextLoop ls ≠ .doExit ∧ nextLoop ls ≠ .exited ∧ nextLoop ls ≠ .notCreated := by
  cases ls <;> simp [nextLoop]

theorem afterBody_not_done (l : TimingLoop) (ls : List TimingLoop) :
    afterBody l ls ≠ .doExit ∧ afterBody l ls ≠ .exited ∧ afterBody l ls ≠ .notCreated := by
  unfold afterBody
  split
  · simp
  · exact nextLoop_not_done ls

/-- Between two timing macros the INSTR thread waits for nothing. -/
theorem nextLoop_waits_not (ls : List TimingLoop) :
    (nextLoop ls).awaitsReset = false ∧ (nextLoop ls).awaitsPrint = false := by
  cases ls with
  | nil => exact ⟨rfl, rfl⟩
  | cons l ls =>
    rw [nextLoop, entry]
    cases l.guard <;> exact ⟨rfl, rfl⟩

theorem afterBody_waits_not (l : TimingLoop) (ls : List TimingLoop) :
    (afterBody l ls).awaitsReset = false ∧ (afterBody l ls).awaitsPrint = false := by
  unfold afterBody
  split
  · exact ⟨rfl, rfl⟩
  · exact nextLoop_waits_not ls

/-- Inside a timing macro nothing finishes. -/
theorem nopTimingLoop_step (i : ι) (g : Globals ι) (env : Env) (t : InstrThread) (l : TimingLoop)
    (p : LoopPc) (rest : List TimingLoop) :
    let r := nopTimingLoop i g env t l p rest
    r.2.1.nopTh = g.nopTh ∧ r.2.1.instrTh = g.instrTh ∧ r.2.1.finish = g.finish ∧
      r.2.1.count = g.count ∧
      r.2.2.awake = t.awake ∧ r.2.2.shouldStop = t.shouldStop ∧ r.2.2.action = t.action ∧
      r.2.2.pc ≠ .notCreated ∧ ¬ r.2.2.Done := by
  have hn := nextLoop_not_done rest
  have ha := afterBody_not_done l rest
  unfold nopTimingLoop InstrThread.Done
  cases p
  case bootCpuHas f => cases hb : env.bootCpuHas f <;> simp [hb, hn]
  case spinReset => cases g.resetCount <;> simp
  case spinResetStop => cases t.shouldStop <;> simp
  case forCall left => cases left <;> simp
  case spinPrint => cases g.printCount <;> simp [ha]
  case spinPrintStop => cases t.shouldStop <;> simp [ha]
  all_goals simp [hn, ha]

theorem instrF_step {i : ι} {g g' : Globals ι} {env : Env} {t t' : InstrThread}
    {es : List (Event ι)} (h : instrF i g env t = some (es, g', t')) : InstrStep g t g' t' := by
  unfold instrF at h
  split at h
  case isFalse => cases h
  case isTrue hawake =>
    cases hpc : t.pc <;> simp only [hpc] at h
    case notCreated | exited => cases h
    case atLoop l p rest =>
      have hl := nopTimingLoop_step i g env t l p rest
      rw [Option.some.inj h] at hl
      obtain ⟨h1, h2, h3, h0, h4, h5, h6, h7, h8⟩ := hl
      have hd : ¬ t.Done := by simp [InstrThread.Done, hpc]
      exact ⟨h1, h2, h0, ⟨hawake, h4.trans hawake⟩, h5, h6, by simp [hpc], h7,
        Or.inr (Or.inr (Or.inr ⟨hd, h3, h8⟩))⟩
    case aggregating =>
      have hn := nextLoop_not_done (nopLoops t.action)
      cases h
      constructor <;> simp [hawake, hpc, hn, InstrThread.Done]
    case created =>
      cases hs : t.shouldStop <;> cases h <;> constructor <;>
        simp [hawake, hpc, hs, InstrThread.Done]
    all_goals
      cases h
      constructor <;> simp [hawake, hpc, InstrThread.Done]

/-! ## The invariant of serialised calls -/

/-- What the stage of call `i` says about the two threads it created. -/
structure Own (i : ι) (c : Call ι) (n : NopThread) (t : InstrThread) : Prop where
  noFault : c.pc ≠ .faulted ∧ n.pc ≠ .faulted
  nopCreated : n.pc = .notCreated ↔ c.pc.stage ≤ 4
  instrCreated : t.pc = .notCreated ↔ c.pc.stage ≤ 5
  action : 6 ≤ c.pc.stage → t.action = c.action
  nopAwake : n.awake = true ↔ 11 ≤ c.pc.stage
  nopAsleep : c.pc.stage ≤ 10 → n.pc = .notCreated ∨ n.pc = .created
  instrAwake : t.awake = true ↔ 12 ≤ c.pc.stage
  instrAsleep : c.pc.stage ≤ 11 → t.pc = .notCreated ∨ t.pc = .created
  nopStop : n.shouldStop = true ↔ 14 ≤ c.pc.stage
  instrStop : t.shouldStop = true ↔ 16 ≤ c.pc.stage
  joinsNop : ∀ j, c.pc = .joinNop j → j = i
  joinsInstr : ∀ j, c.pc = .joinInstr j → j = i
  nopExited : 15 ≤ c.pc.stage → n.pc = .exited
  instrDone : 13 ≤ c.pc.stage → t.Done
  instrExited : 17 ≤ c.pc.stage → t.pc = .exited

/-- What the globals hold for call `i` while it is in its section. -/
structure Owner (i : ι) (g : Globals ι) (c : CallPc ι) (t : InstrThread) : Prop where
  nopTh : 5 ≤ c.stage → g.nopTh = .task i
  instrTh : 6 ≤ c.stage → g.instrTh = .task i
  finish : 4 ≤ c.stage → (g.finish = true ↔ t.Done)

/-- **The invariant of serialised calls.** -/
structure Inv (s : State ι) : Prop where
  own : ∀ i, Own i (s.call i) (s.nop i) (s.instr i)
  owner : ∀ i, (s.call i).pc.InSection → Owner i s.globals (s.call i).pc (s.instr i)
  exclusive : ∀ i j, (s.call i).pc.InSection → (s.call j).pc.InSection → i = j

theorem inv_initial : Inv (initial : State ι) where
  own i := by
    constructor <;>
      simp [initial, NopThread.absent, InstrThread.absent, CallPc.stage]
  owner i h := by simp [initial, CallPc.InSection, CallPc.stage] at h
  exclusive i j h := by simp [initial, CallPc.InSection, CallPc.stage] at h

/-- A step of call `i` or of its threads: nothing of another call changes, and
the globals change only while `i` is in its section. -/
structure Frame (i : ι) (s s' : State ι) : Prop where
  call : ∀ j, j ≠ i → s'.call j = s.call j
  nop : ∀ j, j ≠ i → s'.nop j = s.nop j
  instr : ∀ j, j ≠ i → s'.instr j = s.instr j
  globals : ¬ (s.call i).pc.InSection → s'.globals = s.globals
  enters : (s'.call i).pc.InSection → (s.call i).pc.InSection

/-- A step of call `i` or of its threads that keeps the invariant. -/
structure Keeps (i : ι) (s s' : State ι) : Prop where
  inv : Inv s'
  frame : Frame i s s'

theorem Inv.of_frame {s s' : State ι} {i : ι} (h : Inv s) (hf : Frame i s s')
    (hown : Own i (s'.call i) (s'.nop i) (s'.instr i))
    (howner : (s'.call i).pc.InSection → Owner i s'.globals (s'.call i).pc (s'.instr i)) :
    Keeps i s s' := by
  refine ⟨⟨fun j => ?_, fun j hsec => ?_, fun j k hj hk => ?_⟩, hf⟩
  · by_cases hj : j = i
    · subst hj; exact hown
    · rw [hf.call j hj, hf.nop j hj, hf.instr j hj]; exact h.own j
  · by_cases hj : j = i
    · subst hj; exact howner hsec
    · rw [hf.call j hj] at hsec ⊢
      have hi : ¬ (s.call i).pc.InSection := fun hi => hj (h.exclusive j i hsec hi)
      rw [hf.instr j hj, hf.globals hi]
      exact h.owner j hsec
  · have back : ∀ l, (s'.call l).pc.InSection → (s.call l).pc.InSection := by
      intro l hl
      by_cases he : l = i
      · subst he; exact hf.enters hl
      · rwa [hf.call l he] at hl
    exact h.exclusive j k (back j hj) (back k hk)

/-- A statement of a NOP thread is executed only while its call is in its section. -/
theorem Own.nop_inSection {i : ι} {c : Call ι} {n : NopThread} {t : InstrThread} (h : Own i c n t)
    (hawake : n.awake = true) (hexit : n.pc ≠ .exited) : c.pc.InSection := by
  have h1 := h.nopAwake.mp hawake
  refine ⟨by omega, ?_⟩
  by_contra hlt
  exact hexit (h.nopExited (by omega))

/-- A call that moves on without passing a stage that concerns its threads. -/
theorem Own.goto {i : ι} {c : Call ι} {n : NopThread} {t : InstrThread} {pc : CallPc ι}
    (h : Own i c n t) (hf : pc ≠ .faulted) (hj : ∀ j, pc ≠ .joinNop j ∧ pc ≠ .joinInstr j)
    (hk : ∀ k ∈ [4, 5, 10, 11, 12, 13, 14, 15, 16], c.pc.stage ≤ k ↔ pc.stage ≤ k) :
    Own i { c with pc := pc } n t := by
  simp only [List.mem_cons, List.not_mem_nil, or_false, forall_eq_or_imp, forall_eq] at hk
  obtain ⟨k4, k5, k10, k11, k12, k13, k14, k15, k16⟩ := hk
  exact {
    noFault := ⟨hf, h.noFault.2⟩
    nopCreated := h.nopCreated.trans k4
    instrCreated := h.instrCreated.trans k5
    action := fun hle => h.action (by simp only at hle; omega)
    nopAwake := h.nopAwake.trans (by simp only; omega)
    nopAsleep := fun hle => h.nopAsleep (k10.mpr hle)
    instrAwake := h.instrAwake.trans (by simp only; omega)
    instrAsleep := fun hle => h.instrAsleep (k11.mpr hle)
    nopStop := h.nopStop.trans (by simp only; omega)
    instrStop := h.instrStop.trans (by simp only; omega)
    joinsNop := fun j he => absurd he (hj j).1
    joinsInstr := fun j he => absurd he (hj j).2
    nopExited := fun hle => h.nopExited (by simp only at hle; omega)
    instrDone := fun hle => h.instrDone (by simp only at hle; omega)
    instrExited := fun hle => h.instrExited (by simp only at hle; omega) }

section Own
variable {i : ι} {c : Call ι} {n : NopThread} {t : InstrThread}

/-- `kthread_create(nop_f)`. -/
theorem Own.createNop (h : Own i c n t) (hpc : c.pc = .createNop) :
    Own i { c with pc := .createInstr } .fresh t := by
  have hc := h.instrCreated
  have ha := h.instrAwake
  have hs := h.instrStop
  simp only [hpc, CallPc.stage, Nat.reduceLeDiff, iff_true, iff_false] at hc ha hs
  constructor <;> simp [CallPc.stage, NopThread.fresh, hc, ha, hs]

/-- `kthread_create(instr_f)` or `kthread_create(buffer_flush_instr_f)`. -/
theorem Own.createInstr (h : Own i c n t) (hpc : c.pc = .createInstr) :
    Own i { c with pc := .testNop } n (.fresh c.action) := by
  have hf := h.noFault.2
  have hc := h.nopCreated
  have ha := h.nopAwake
  have hp := h.nopAsleep
  have hs := h.nopStop
  simp only [hpc, CallPc.stage, Nat.reduceLeDiff, iff_false, true_implies] at hc ha hp hs
  constructor <;> simp [CallPc.stage, InstrThread.fresh, hf, hc, ha, hs]
  exact hp.resolve_left hc

/-- `wake_up_process(nop_th)`. -/
theorem Own.wakeNop (h : Own i c n t) (hpc : c.pc = .wakeNop) :
    Own i { c with pc := .wakeInstr } { n with awake := true } t := by
  obtain ⟨h1, h2, h3, h4, h5, h6, h7, h8, h9, h10, -⟩ := h
  simp only [hpc, CallPc.stage, Nat.reduceLeDiff, iff_false, true_implies] at *
  constructor <;> simp [CallPc.stage, *]
  exact h8.resolve_left h3

/-- `wake_up_process(instr_th)`. -/
theorem Own.wakeInstr (h : Own i c n t) (hpc : c.pc = .wakeInstr) :
    Own i { c with pc := .poll } n { t with awake := true } := by
  obtain ⟨h1, h2, h3, h4, h5, h6, h7, h8, h9, h10, -⟩ := h
  simp only [hpc, CallPc.stage, Nat.reduceLeDiff, iff_true, iff_false, true_implies] at *
  constructor <;> simp [CallPc.stage, *]

/-- The poll finds `finish` set. -/
theorem Own.pollDone (h : Own i c n t) (hpc : c.pc = .poll) (hd : t.Done) :
    Own i { c with pc := .stopNop } n t := by
  obtain ⟨h1, h2, h3, h4, h5, h6, h7, h8, h9, h10, -⟩ := h
  simp only [hpc, CallPc.stage, Nat.reduceLeDiff, iff_true, iff_false, true_implies] at *
  constructor <;> simp [CallPc.stage, *]

/-- `kthread_stop(nop_th)` is called. -/
theorem Own.stopNop (h : Own i c n t) (hpc : c.pc = .stopNop) :
    Own i { c with pc := .joinNop i } { n with shouldStop := true, awake := true } t := by
  obtain ⟨h1, h2, h3, h4, h5, h6, h7, h8, h9, h10, h11, h12, h13, h14, h15⟩ := h
  simp only [hpc, CallPc.stage, Nat.reduceLeDiff, iff_true, iff_false, true_implies] at *
  constructor <;> simp [CallPc.stage, *]

/-- The NOP thread has exited and `kthread_stop(nop_th)` returns. -/
theorem Own.joinNop {j : ι} (h : Own i c n t) (hpc : c.pc = .joinNop j) (he : n.pc = .exited) :
    Own i { c with pc := .stopInstr } n t := by
  obtain ⟨h1, h2, h3, h4, h5, h6, h7, h8, h9, h10, h11, h12, h13, h14, h15⟩ := h
  simp only [hpc, CallPc.stage, Nat.reduceLeDiff, iff_true, iff_false, true_implies] at *
  constructor <;> simp [CallPc.stage, *]

/-- `kthread_stop(instr_th)` is called. -/
theorem Own.stopInstr (h : Own i c n t) (hpc : c.pc = .stopInstr) :
    Own i { c with pc := .joinInstr i } n { t with shouldStop := true, awake := true } := by
  obtain ⟨h1, h2, h3, h4, h5, h6, h7, h8, h9, h10, h11, h12, h13, h14, h15⟩ := h
  simp only [hpc, CallPc.stage, Nat.reduceLeDiff, iff_true, iff_false, true_implies] at *
  constructor <;> simp [CallPc.stage, *]
  exact h14

/-- The INSTR thread has exited and the call returns. -/
theorem Own.joinInstr {j : ι} (h : Own i c n t) (hpc : c.pc = .joinInstr j)
    (he : t.pc = .exited) : Own i { c with pc := .returned } n t := by
  obtain ⟨h1, h2, h3, h4, h5, h6, h7, h8, h9, h10, h11, h12, h13, h14, h15⟩ := h
  simp only [hpc, CallPc.stage, Nat.reduceLeDiff, iff_true, iff_false, true_implies] at *
  constructor <;> simp [CallPc.stage, *]

end Own

section Steps
variable [DecidableEq ι] {s s' : State ι} {i : ι} {es : List (Event ι)}

theorem inv_nop (h : Inv s) (hs : step s (.nop i) = some (es, s')) : Keeps i s s' := by
  obtain ⟨⟨es', g', n'⟩, hr, he⟩ := Option.map_eq_some_iff.mp hs
  obtain ⟨rfl, rfl⟩ := Prod.mk.inj he
  have hn := nopF_step hr
  have ho := h.own i
  have hsec := ho.nop_inSection hn.awake.1 hn.running.2
  have hw := h.owner i hsec
  have h11 := ho.nopAwake.mp hn.awake.1
  have hpend : s.signalPending s.globals.nopTh = some (s.nop i).sigPending := by
    rw [hw.nopTh (by omega)]; rfl
  refine h.of_frame (i := i) ⟨?_, ?_, ?_, ?_, ?_⟩ ?_ ?_
  · intro j _; rfl
  · intro j hj; simp [hj]
  · intro j _; rfl
  · intro hni; exact absurd hsec hni
  · intro h'; exact h'
  · simp only [setGlobals_call, setNop_call, setGlobals_nop, setNop_nop_self, setGlobals_instr,
      setNop_instr]
    refine { ho with
      noFault := ⟨ho.noFault.1, fun hf => ?_⟩
      nopCreated := ⟨fun hc => absurd hc hn.created, fun hle => by omega⟩
      nopAwake := ⟨fun _ => h11, fun _ => hn.awake.2⟩
      nopAsleep := fun hle => by omega
      nopStop := by rw [hn.shouldStop]; exact ho.nopStop
      nopExited := fun hle => absurd (ho.nopExited hle) hn.running.2 }
    exact absurd (hpend.symm.trans (hn.faulted hf)) (by simp)
  · intro _
    simp only [setGlobals_call, setNop_call, setGlobals_globals, setGlobals_instr, setNop_instr]
    exact ⟨fun hle => hn.nopTh.trans (hw.nopTh hle), fun hle => hn.instrTh.trans (hw.instrTh hle),
      fun hle => by rw [hn.finish]; exact hw.finish hle⟩

theorem inv_sigkill (h : Inv s) (hs : step s (.sigkill i) = some (es, s')) :
    Keeps i s s' := by
  obtain ⟨rfl, rfl⟩ := Prod.mk.inj (Option.some.inj hs)
  have ho := h.own i
  refine h.of_frame (i := i) ⟨?_, ?_, ?_, ?_, ?_⟩ ?_ ?_
  · intro j _; rfl
  · intro j hj; simp [hj]
  · intro j _; rfl
  · intro _; rfl
  · intro h'; exact h'
  · simp only [setNop_call, setNop_nop_self, setNop_instr]
    exact ⟨ho.noFault, ho.nopCreated, ho.instrCreated, ho.action, ho.nopAwake, ho.nopAsleep,
      ho.instrAwake, ho.instrAsleep, ho.nopStop, ho.instrStop, ho.joinsNop, ho.joinsInstr,
      ho.nopExited, ho.instrDone, ho.instrExited⟩
  · exact h.owner i

theorem inv_instr {env : Env} (h : Inv s) (hs : step s (.instr i env) = some (es, s')) :
    Keeps i s s' := by
  obtain ⟨⟨es', g', t'⟩, hr, he⟩ := Option.map_eq_some_iff.mp hs
  obtain ⟨rfl, rfl⟩ := Prod.mk.inj he
  have ht := instrF_step hr
  have ho := h.own i
  have h12 := ho.instrAwake.mp ht.awake.1
  -- a thread that is past its `finish = true` changes no global
  have hquiet : ¬ (s.call i).pc.InSection → g' = s.globals := by
    intro hni
    have hd : (s.instr i).Done := ho.instrDone (by by_contra hlt; exact hni ⟨by omega, by omega⟩)
    rcases ht.finishes with ⟨h1, -⟩ | ⟨-, h1, -⟩ | ⟨-, -, h1⟩ | ⟨h1, -⟩
    · rcases hd with hd | hd <;> rw [h1] at hd <;> cases hd
    · exact h1
    · exact h1
    · exact absurd hd h1
  -- a thread that is stopped before it runs has not been reached by the poll
  have hcreated : (s.instr i).pc = .created → (s.instr i).shouldStop ≠ true := by
    intro hc hstop
    rcases ho.instrDone (by have := ho.instrStop.mp hstop; omega) with hd | hd <;>
      rw [hc] at hd <;> cases hd
  have hdone : (s.instr i).Done → InstrThread.Done t' := by
    intro hd
    rcases ht.finishes with ⟨h1, -⟩ | ⟨-, -, h1⟩ | ⟨h1, h2, -⟩ | ⟨h1, -⟩
    · rcases hd with hd | hd <;> rw [h1] at hd <;> cases hd
    · exact Or.inr h1
    · exact absurd h2 (hcreated h1)
    · exact absurd hd h1
  refine h.of_frame (i := i) ⟨?_, ?_, ?_, ?_, ?_⟩ ?_ ?_
  · intro j _; rfl
  · intro j _; rfl
  · intro j hj; simp [hj]
  · exact hquiet
  · intro h'; exact h'
  · simp only [setGlobals_call, setInstr_call, setGlobals_instr, setInstr_instr_self,
      setGlobals_nop, setInstr_nop]
    exact { ho with
      instrCreated := ⟨fun hc => absurd hc ht.created, fun hle => by omega⟩
      action := fun hle => ht.action.trans (ho.action hle)
      instrAwake := ⟨fun _ => h12, fun _ => ht.awake.2⟩
      instrAsleep := fun hle => by omega
      instrStop := by rw [ht.shouldStop]; exact ho.instrStop
      instrDone := fun hle => hdone (ho.instrDone hle)
      instrExited := fun hle => absurd (ho.instrExited hle) ht.running.2 }
  · intro hsec
    simp only [setGlobals_call, setInstr_call, setGlobals_globals, setGlobals_instr,
      setInstr_instr_self] at hsec ⊢
    have hw := h.owner i hsec
    refine ⟨fun hle => ht.nopTh.trans (hw.nopTh hle), fun hle => ht.instrTh.trans (hw.instrTh hle),
      fun hle => ?_⟩
    rcases ht.finishes with ⟨-, h1, h2⟩ | ⟨h1, h2, h3⟩ | ⟨h1, h2, -⟩ | ⟨h1, h2, h3⟩
    · exact ⟨fun _ => Or.inl h2, fun _ => h1⟩
    · rw [h2]
      exact ⟨fun _ => Or.inr h3, fun _ => (hw.finish hle).mpr (Or.inl h1)⟩
    · exact absurd h2 (hcreated h1)
    · rw [h2]
      exact ⟨fun hf => absurd ((hw.finish hle).mp hf) h1, fun hd => absurd hd h3⟩

/-- A step of the call in its section that takes it to `pc` and touches no
thread of another call. -/
theorem Inv.advance {p : CallPc ι} (h : Inv s) (hsec : 1 ≤ (s.call i).pc.stage)
    (hcall : s'.call = Function.update s.call i { s.call i with pc := p })
    (hnop : ∀ j, j ≠ i → s'.nop j = s.nop j) (hinstr : ∀ j, j ≠ i → s'.instr j = s.instr j)
    (hglobals : ¬ (s.call i).pc.InSection → s'.globals = s.globals)
    (hown : Own i { s.call i with pc := p } (s'.nop i) (s'.instr i))
    (hle : (s.call i).pc.stage ≤ p.stage)
    (howner : p.InSection → Owner i s'.globals p (s'.instr i)) : Keeps i s s' := by
  have hself : s'.call i = { s.call i with pc := p } := by rw [hcall]; simp
  refine h.of_frame (i := i) ⟨?_, hnop, hinstr, hglobals, ?_⟩ ?_ ?_
  · intro j hj; rw [hcall]; simp [hj]
  · rw [hself]
    rintro ⟨-, h15⟩
    exact ⟨hsec, Nat.le_trans hle h15⟩
  · rw [hself]; exact hown
  · rw [hself]; exact howner

/-- `Inv.advance` for a statement that changes nothing but the place of the call. -/
theorem Inv.goto {pc : CallPc ι} (h : Inv s) (hsec : (s.call i).pc.InSection)
    (hf : pc ≠ .faulted) (hj : ∀ j, pc ≠ .joinNop j ∧ pc ≠ .joinInstr j)
    (hk : ∀ k ∈ [4, 5, 10, 11, 12, 13, 14, 15, 16], (s.call i).pc.stage ≤ k ↔ pc.stage ≤ k)
    (h4 : 6 ≤ (s.call i).pc.stage) (hle : (s.call i).pc.stage ≤ pc.stage) :
    Keeps i s (s.goto i pc) := by
  refine h.advance hsec.1 rfl (fun j _ => rfl) (fun j _ => rfl) (fun _ => rfl)
    ((h.own i).goto hf hj hk) hle (fun _ => ?_)
  have hw := h.owner i hsec
  exact ⟨fun _ => hw.nopTh (by omega), fun _ => hw.instrTh (by omega),
    fun _ => hw.finish (by omega)⟩

theorem inv_call {err : Option Nat} (h : Inv s) (hc : err = none)
    (hs : step s (.call i err) = some (es, s')) : Keeps i s s' := by
  subst hc
  change nopTimingStart s i none = some (es, s') at hs
  have ho := h.own i
  have hw := h.owner i
  unfold nopTimingStart at hs
  cases hpc : (s.call i).pc <;> simp only [hpc] at hs
  case notCalled | returned | faulted => cases hs
  all_goals
    rw [hpc] at hw
    simp only [CallPc.InSection, CallPc.stage, Nat.reduceLeDiff, and_self, and_false,
      forall_const, false_implies] at hw
  case clearReset | clearPrint =>
    cases hs
    refine h.advance (by simp [hpc, CallPc.stage]) rfl (fun j _ => rfl) (fun j _ => rfl)
      (by simp [hpc, CallPc.InSection, CallPc.stage])
      (ho.goto (by simp) (by simp) (by simp [hpc, CallPc.stage]))
      (by simp [hpc, CallPc.stage]) (fun _ => ?_)
    constructor <;> simp [CallPc.stage]
  case clearFinish =>
    cases hs
    have ht : (s.instr i).pc = .notCreated := ho.instrCreated.mpr (by simp [hpc, CallPc.stage])
    refine h.advance (by simp [hpc, CallPc.stage]) rfl (fun j _ => rfl) (fun j _ => rfl)
      (by simp [hpc, CallPc.InSection, CallPc.stage])
      (ho.goto (by simp) (by simp) (by simp [hpc, CallPc.stage]))
      (by simp [hpc, CallPc.stage]) (fun _ => ?_)
    constructor <;> simp [CallPc.stage, InstrThread.Done, ht]
  case createNop =>
    cases hs
    refine h.advance (p := .createInstr) (by simp [hpc, CallPc.stage]) rfl
      (fun j hj => by simp [hj]) (fun j _ => rfl) (by simp [hpc, CallPc.InSection, CallPc.stage])
      (by simpa using ho.createNop hpc) (by simp [hpc, CallPc.stage]) (fun _ => ?_)
    constructor <;> simp [CallPc.stage, hw.finish (by simp [CallPc.stage])]
  case createInstr =>
    cases hs
    refine h.advance (p := .testNop) (by simp [hpc, CallPc.stage]) rfl
      (fun j _ => rfl) (fun j hj => by simp [hj]) (by simp [hpc, CallPc.InSection, CallPc.stage])
      (by simpa using ho.createInstr hpc) (by simp [hpc, CallPc.stage]) (fun _ => ?_)
    have hn : (s.instr i).pc = .notCreated := ho.instrCreated.mpr (by simp [hpc, CallPc.stage])
    have hf := hw.finish (by simp [CallPc.stage])
    have hp := hw.nopTh (by simp [CallPc.stage])
    constructor <;> simp [hp, hf, hn, InstrThread.fresh, InstrThread.Done]
  case sleep =>
    cases hs
    apply h.goto <;> simp [hpc, CallPc.InSection, CallPc.stage]
  case testNop | testInstr | bindNop | bindInstr =>
    have hp := hw.nopTh (by simp [CallPc.stage])
    have hq := hw.instrTh (by simp [CallPc.stage])
    simp only [hp, hq, reduceCtorEq, if_false] at hs
    cases hs
    apply h.goto <;> simp [hpc, CallPc.InSection, CallPc.stage]
  case wakeNop =>
    rw [hw.nopTh (by simp [CallPc.stage])] at hs
    cases hs
    refine h.advance (p := .wakeInstr) (by simp [hpc, CallPc.stage]) rfl
      (fun j hj => by simp [hj]) (fun j _ => rfl) (fun _ => rfl)
      (by simpa using ho.wakeNop hpc) (by simp [hpc, CallPc.stage]) (fun _ => ?_)
    exact ⟨fun _ => hw.nopTh (by simp [CallPc.stage]), fun _ => hw.instrTh (by simp [CallPc.stage]),
      fun _ => hw.finish (by simp [CallPc.stage])⟩
  case wakeInstr =>
    rw [hw.instrTh (by simp [CallPc.stage])] at hs
    cases hs
    refine h.advance (p := .poll) (by simp [hpc, CallPc.stage]) rfl
      (fun j _ => rfl) (fun j hj => by simp [hj]) (fun _ => rfl)
      (by simpa using ho.wakeInstr hpc) (by simp [hpc, CallPc.stage]) (fun _ => ?_)
    refine ⟨fun _ => hw.nopTh (by simp [CallPc.stage]),
      fun _ => hw.instrTh (by simp [CallPc.stage]), fun _ => ?_⟩
    simpa [InstrThread.Done] using hw.finish (by simp [CallPc.stage])
  case poll =>
    cases hfin : s.globals.finish <;> rw [hfin] at hs <;> cases hs
    · apply h.goto <;> simp [hpc, CallPc.InSection, CallPc.stage]
    · have hd := (hw.finish (by simp [CallPc.stage])).mp hfin
      refine h.advance (p := .stopNop) (by simp [hpc, CallPc.stage]) rfl
        (fun j _ => rfl) (fun j _ => rfl) (fun _ => rfl) (ho.pollDone hpc hd)
        (by simp [hpc, CallPc.stage]) (fun _ => ?_)
      exact ⟨fun _ => hw.nopTh (by simp [CallPc.stage]),
        fun _ => hw.instrTh (by simp [CallPc.stage]), fun _ => hw.finish (by simp [CallPc.stage])⟩
  case stopNop =>
    rw [hw.nopTh (by simp [CallPc.stage])] at hs
    cases hs
    refine h.advance (p := .joinNop i) (by simp [hpc, CallPc.stage]) rfl
      (fun j hj => by simp [hj]) (fun j _ => rfl) (fun _ => rfl)
      (by simpa using ho.stopNop hpc) (by simp [hpc, CallPc.stage]) (fun _ => ?_)
    exact ⟨fun _ => hw.nopTh (by simp [CallPc.stage]), fun _ => hw.instrTh (by simp [CallPc.stage]),
      fun _ => hw.finish (by simp [CallPc.stage])⟩
  case joinNop j =>
    obtain rfl := ho.joinsNop j hpc
    split at hs <;> cases hs
    refine h.advance (p := .stopInstr) (by simp [hpc, CallPc.stage]) rfl
      (fun j _ => rfl) (fun j _ => rfl) (fun _ => rfl) (ho.joinNop hpc ‹_›)
      (by simp [hpc, CallPc.stage]) (fun _ => ?_)
    exact ⟨fun _ => hw.nopTh (by simp [CallPc.stage]), fun _ => hw.instrTh (by simp [CallPc.stage]),
      fun _ => hw.finish (by simp [CallPc.stage])⟩
  case stopInstr =>
    rw [hw.instrTh (by simp [CallPc.stage])] at hs
    cases hs
    refine h.advance (p := .joinInstr i) (by simp [hpc, CallPc.stage]) rfl
      (fun j _ => rfl) (fun j hj => by simp [hj]) (fun _ => rfl)
      (by simpa using ho.stopInstr hpc) (by simp [hpc, CallPc.stage]) (fun hsec => ?_)
    simp [CallPc.InSection, CallPc.stage] at hsec
  case joinInstr j =>
    obtain rfl := ho.joinsInstr j hpc
    split at hs <;> cases hs
    refine h.advance (p := .returned) (by simp [hpc, CallPc.stage]) rfl
      (fun j _ => rfl) (fun j _ => rfl) (fun _ => rfl) (ho.joinInstr hpc ‹_›)
      (by simp [hpc, CallPc.stage]) (fun hsec => ?_)
    simp [CallPc.InSection, CallPc.stage] at hsec

/-- A statement of `nop_timing_start`, when the globals are the call's own: it
changes the flags only by clearing them, and moves its threads only by creating
them. -/
structure CallStep (i : ι) (s s' : State ι) : Prop where
  stage : (s.call i).pc.stage ≤ (s'.call i).pc.stage ∧
    (s'.call i).pc.stage ≤ (s.call i).pc.stage + 1
  action : (s'.call i).action = (s.call i).action
  count : s'.globals.count = s.globals.count
  reset : s'.globals.resetCount = true →
    s.globals.resetCount = true ∧ (s.call i).pc ≠ .clearReset
  print : s'.globals.printCount = true →
    s.globals.printCount = true ∧ (s.call i).pc ≠ .clearPrint
  flags : 3 ≤ (s.call i).pc.stage → s'.globals.resetCount = s.globals.resetCount ∧
    s'.globals.printCount = s.globals.printCount
  nopPc : (s'.nop i).pc = (s.nop i).pc ∨
    (s.nop i).pc = .notCreated ∧ (s'.nop i).pc = .created
  instrPc : (s'.instr i).pc = (s.instr i).pc ∨
    (s.instr i).pc = .notCreated ∧ (s'.instr i).pc = .created
  instrAction : (s'.instr i).action = (s.instr i).action ∨
    (s.instr i).pc = .notCreated ∧ (s'.instr i).pc = .created

theorem call_step (h : Inv s) (hs : step s (.call i none) = some (es, s')) :
    CallStep i s s' := by
  change nopTimingStart s i none = some (es, s') at hs
  have ho := h.own i
  have hw := h.owner i
  unfold nopTimingStart at hs
  cases hpc : (s.call i).pc <;> simp only [hpc] at hs
  case notCalled | returned | faulted => cases hs
  all_goals
    rw [hpc] at hw
    simp only [CallPc.InSection, CallPc.stage, Nat.reduceLeDiff, and_self, and_false,
      forall_const, false_implies] at hw
  case clearReset | clearPrint | clearFinish | sleep =>
    cases hs
    constructor <;> simp [hpc, CallPc.stage]
  case createNop =>
    cases hs
    have hn := ho.nopCreated.mpr (by simp [hpc, CallPc.stage])
    constructor <;> simp [hpc, hn, CallPc.stage, NopThread.fresh]
  case createInstr =>
    cases hs
    have ht := ho.instrCreated.mpr (by simp [hpc, CallPc.stage])
    constructor <;> simp [hpc, ht, CallPc.stage, InstrThread.fresh]
  case testNop | testInstr | bindNop | bindInstr =>
    have hp := hw.nopTh (by simp [CallPc.stage])
    have hq := hw.instrTh (by simp [CallPc.stage])
    simp only [hp, hq, reduceCtorEq, if_false] at hs
    cases hs
    constructor <;> simp [hpc, CallPc.stage]
  case wakeNop | stopNop =>
    rw [hw.nopTh (by simp [CallPc.stage])] at hs
    cases hs
    constructor <;> simp [hpc, CallPc.stage]
  case wakeInstr | stopInstr =>
    rw [hw.instrTh (by simp [CallPc.stage])] at hs
    cases hs
    constructor <;> simp [hpc, CallPc.stage]
  case poll =>
    cases hfin : s.globals.finish <;> rw [hfin] at hs <;> cases hs <;>
      constructor <;> simp [hpc, CallPc.stage]
  case joinNop j | joinInstr j =>
    split at hs <;> cases hs
    constructor <;> simp [hpc, CallPc.stage]

/-- A call begins: `count = 0`. -/
theorem begin_eq {action : Bool} (hs : step s (.begin i action) = some (es, s')) :
    (s.call i).pc = .notCalled ∧ es = [.begin i] ∧ s' = { s with
      globals := { s.globals with count := 0 }
      call := Function.update s.call i ⟨.clearReset, action⟩ } := by
  simp only [step] at hs
  split at hs
  · obtain ⟨rfl, rfl⟩ := Prod.mk.inj (Option.some.inj hs)
    exact ⟨‹_›, rfl, rfl⟩
  · cases hs

theorem inv_begin {action : Bool} (h : Inv s) (hser : ∀ j, ¬ (s.call j).pc.InSection)
    (hs : step s (.begin i action) = some (es, s')) : Inv s' := by
  obtain ⟨hpc, -, rfl⟩ := begin_eq hs
  have ho := h.own i
  refine ⟨fun j => ?_, fun j hj => ?_, fun j k hj hk => ?_⟩
  · by_cases hji : j = i
    · subst hji
      obtain ⟨h1, h2, h3, h4, h5, h6, h7, h8, h9, h10, -⟩ := ho
      simp only [hpc, CallPc.stage, Nat.reduceLeDiff, iff_true, iff_false] at *
      constructor <;> simp [CallPc.stage, *]
    · simpa [hji] using h.own j
  · by_cases hji : j = i
    · subst hji
      constructor <;> simp [CallPc.stage]
    · simp only [Function.update_of_ne hji] at hj
      exact absurd hj (hser j)
  · have one : ∀ l, ((Function.update s.call i ⟨.clearReset, action⟩) l).pc.InSection → l = i := by
      intro l hl
      by_contra hli
      rw [Function.update_of_ne hli] at hl
      exact hser l hl
    exact (one j hj).trans (one k hk).symm

/-- The call whose code an action executes. -/
def Action.actor : Action ι → ι
  | .begin i _ => i
  | .call i _ => i
  | .nop i => i
  | .instr i _ => i
  | .sigkill i => i

/-- Every step but the first one of a call keeps the invariant and stays inside
one call. -/
theorem keeps_step {a : Action ι} (h : Inv s) (ha : ∀ i action, a ≠ .begin i action)
    (hc : Creates s a) (hs : step s a = some (es, s')) : Keeps a.actor s s' := by
  cases a with
  | begin i action => exact absurd rfl (ha i action)
  | call i err => exact inv_call h hc hs
  | nop i => exact inv_nop h hs
  | instr i env => exact inv_instr h hs
  | sigkill i => exact inv_sigkill h hs

/-- **Serialised calls keep the invariant**, step by step. -/
theorem inv_step {a : Action ι} (h : Inv s) (hser : Serial s a) (hc : Creates s a)
    (hs : step s a = some (es, s')) : Inv s' := by
  by_cases ha : ∃ i action, a = .begin i action
  · obtain ⟨i, action, rfl⟩ := ha
    exact inv_begin h hser hs
  · push Not at ha
    exact (keeps_step h ha hc hs).inv

/-- **Serialised calls keep the invariant**, in every run. -/
theorem inv_run {G : State ι → Action ι → Prop} (hG : ∀ s a, G s a → Serial s a ∧ Creates s a)
    {evs : List (Event ι)} (h : system.Run G initial evs s) : Inv s :=
  h.stateInvariant inv_initial
    (fun s a _ _ hi hg hs => inv_step hi (hG s a hg).1 (hG s a hg).2 hs)

/-- **The rule for the call in its section.**  A property of the globals, one
call and its two threads that holds when the call has begun, and that the steps
of the call and of its threads keep, holds while the call is in its section. -/
theorem section_run {G : State ι → Action ι → Prop} (hG : ∀ s a, G s a → Serial s a ∧ Creates s a)
    {Q : ι → Globals ι → Call ι → NopThread → InstrThread → Prop}
    (hbegin : ∀ s i action, Inv s → (s.call i).pc = .notCalled →
      Q i { s.globals with count := 0 } ⟨.clearReset, action⟩ (s.nop i) (s.instr i))
    (hstep : ∀ s a es s', Inv s → (s.call a.actor).pc.InSection →
      Q a.actor s.globals (s.call a.actor) (s.nop a.actor) (s.instr a.actor) → G s a →
      (∀ i action, a ≠ .begin i action) → step s a = some (es, s') →
      Q a.actor s'.globals (s'.call a.actor) (s'.nop a.actor) (s'.instr a.actor))
    {evs : List (Event ι)} (h : system.Run G initial evs s) (hsec : (s.call i).pc.InSection) :
    Q i s.globals (s.call i) (s.nop i) (s.instr i) := by
  have hall : Inv s ∧ ∀ i, (s.call i).pc.InSection →
      Q i s.globals (s.call i) (s.nop i) (s.instr i) := by
    refine h.stateInvariant
      (I := fun s => Inv s ∧ ∀ i, (s.call i).pc.InSection →
        Q i s.globals (s.call i) (s.nop i) (s.instr i)) ⟨inv_initial, ?_⟩ ?_
    · intro i hi
      simp [initial, CallPc.InSection, CallPc.stage] at hi
    · rintro s a es s' ⟨hinv, hQ⟩ hg hs
      refine ⟨inv_step hinv (hG s a hg).1 (hG s a hg).2 hs, fun k hk => ?_⟩
      by_cases ha : ∃ i action, a = .begin i action
      · obtain ⟨i, action, rfl⟩ := ha
        have hser := (hG s _ hg).1
        obtain ⟨hpc, rfl, rfl⟩ := begin_eq hs
        by_cases hki : k = i
        · subst hki
          simpa using hbegin s k action hinv hpc
        · simp only [Function.update_of_ne hki] at hk
          exact absurd hk (hser k)
      · push Not at ha
        have hf := (keeps_step hinv ha (hG s a hg).2 hs).frame
        by_cases hka : k = a.actor
        · subst hka
          exact hstep s a es s' hinv (hf.enters hk) (hQ _ (hf.enters hk)) hg ha hs
        · rw [hf.call k hka] at hk ⊢
          have hout : ¬ (s.call a.actor).pc.InSection := fun h' => hka (hinv.exclusive _ _ hk h')
          rw [hf.nop k hka, hf.instr k hka, hf.globals hout]
          exact hQ k hk
  exact hall.2 i hsec

end Steps

end EcrToolkit.NopTimer
