import EcrToolkit.Fairness
import EcrToolkit.NopLifetime
import Mathlib.Data.Prod.Lex

/-!
# Every call of `nop_timing_start` returns

In an execution of serialised calls that is fair to the caller and to its two threads,
and in which no request of the INSTR thread is left to a NOP thread that has obeyed a
SIGKILL, every call that has begun returns.

The rank of a state is lexicographic: the statements the caller still has to execute,
the work left to the INSTR thread, and the statements that the thread whose turn it is
executes before its next contribution.  Spinning changes none of the three.
-/
namespace EcrToolkit.NopTimer

open Transitions

variable {ι : Type}

/-! ## Whose turn it is -/

/-- The caller and the two threads of one call. -/
inductive Party
  | caller
  | nop
  | instr
  deriving DecidableEq

/-- The steps of one of the three in call `i`. -/
def Party.Acts (i : ι) : Party → Action ι → Prop
  | .caller, .call j _ => j = i
  | .nop, .nop j => j = i
  | .instr, .instr j _ => j = i
  | _, _ => False

/-- Whose step brings the call nearer to its return. -/
def turn (c : CallPc ι) (g : Globals ι) (n : NopPc) (t : InstrThread) : Party :=
  match c with
  | .poll | .sleep =>
    if t.pc = .doExit ∨ t.pc = .exited then .caller else if Awaiting g t then .nop else .instr
  | .joinNop _ => if n = .exited then .caller else .nop
  | .joinInstr _ => if t.pc = .exited then .caller else .instr
  | _ => .caller

/-! ## The rank -/

/-- Statements of a timing macro from `p` on, at most; a spin that is not over counts as
one place. -/
def loopWork (g : Globals ι) (l : TimingLoop) : LoopPc → Nat
  | .irqEnable => 1
  | .irqRestore => 2
  | .zero => 3
  | .spinPrint => if g.printCount then 5 else 3
  | .spinPrintStop => if g.printCount then 5 else 4
  | .setPrint => 6
  | .label => 7
  | .forCall left => 8 + left
  | .spinReset => if g.resetCount then 11 + l.loopIterations else 9 + l.loopIterations
  | .spinResetStop => if g.resetCount then 11 + l.loopIterations else 10 + l.loopIterations
  | .setReset => 12 + l.loopIterations
  | .testOnline => 13 + l.loopIterations
  | .testVmemAligned | .bootCpuHas _ | .irqDisable => 14 + l.loopIterations
  | .irqSave => 15 + l.loopIterations

/-- Statements of the loops that are left, and of `finish = true` and `do_exit(0)`. -/
def workAfter : List TimingLoop → Nat
  | [] => 2
  | l :: rest => l.loopIterations + 16 + workAfter rest

/-- The work left to the INSTR thread. -/
def InstrThread.work (g : Globals ι) (t : InstrThread) : Nat :=
  match t.pc with
  | .notCreated | .exited => 0
  | .doExit => 1
  | .setFinish => 2
  | .atLoop l p rest => loopWork g l p + workAfter rest
  | .aggregating => workAfter (nopLoops t.action) + 1
  | .allowSignal => workAfter (nopLoops t.action) + 2
  | .created => workAfter (nopLoops t.action) + 3

/-- Statements of the NOP thread before `reset_count = false`, while a reset is requested. -/
def NopPc.toAckReset : NopPc → Nat
  | .clearCount => 1
  | .testReset => 2
  | .testSignal => 3
  | .testStop => 4
  | .allowSignal | .storeCount _ => 5
  | .created | .loadCount => 6
  | .nop => 7
  | .ackPrint => 8
  | .prInfo _ => 9
  | .loadPrint => 10
  | .testPrint => 11
  | _ => 0

/-- Statements of the NOP thread before `print_count = false`, while a print is requested. -/
def NopPc.toAckPrint : NopPc → Nat
  | .prInfo _ => 1
  | .loadPrint => 2
  | .testPrint => 3
  | .ackReset => 4
  | .clearCount => 5
  | .testReset => 6
  | .testSignal => 7
  | .testStop => 8
  | .allowSignal | .storeCount _ => 9
  | .created | .loadCount => 10
  | .nop => 11
  | _ => 0

/-- Statements of the NOP thread before its exit, once it is to stop. -/
def NopPc.toExit : NopPc → Nat
  | .doExit => 1
  | .testStop => 2
  | .allowSignal | .storeCount _ => 3
  | .created | .loadCount => 4
  | .nop => 5
  | .ackPrint => 6
  | .prInfo _ => 7
  | .loadPrint => 8
  | .testPrint => 9
  | .ackReset => 10
  | .clearCount => 11
  | .testReset => 12
  | .testSignal => 13
  | _ => 0

/-- How far the NOP thread is from the answer that is awaited. -/
def answerDelay (g : Globals ι) (n : NopPc) (t : InstrThread) : Nat :=
  if t.pc.awaitsReset = true ∧ g.resetCount = true then n.toAckReset
  else if t.pc.awaitsPrint = true ∧ g.printCount = true then n.toAckPrint
  else 0

/-- How far the call is from the next contribution. -/
def delay (c : CallPc ι) (g : Globals ι) (n : NopPc) (t : InstrThread) : Nat :=
  match c with
  | .poll => answerDelay g n t
  | .sleep => if t.pc = .doExit ∨ t.pc = .exited then 1 else answerDelay g n t
  | .joinNop _ => n.toExit
  | _ => 0

/-- The rank of a state, for call `i`. -/
def State.rank (s : State ι) (i : ι) : Nat ×ₗ Nat ×ₗ Nat :=
  toLex (17 - (s.call i).pc.stage, toLex ((s.instr i).work s.globals,
    delay (s.call i).pc s.globals (s.nop i).pc (s.instr i)))

/-! ## What a statement does to the rank -/

theorem work_congr {g g' : Globals ι} {t : InstrThread} (hr : g'.resetCount = g.resetCount)
    (hp : g'.printCount = g.printCount) : t.work g' = t.work g := by
  unfold InstrThread.work
  cases t.pc
  case atLoop l p rest =>
    cases p
    case spinReset | spinResetStop => simp only [loopWork, hr]
    case spinPrint | spinPrintStop => simp only [loopWork, hp]
    all_goals rfl
  all_goals rfl

/-- Clearing a flag takes work away. -/
theorem work_le_of_cleared {g g' : Globals ι} {t : InstrThread}
    (hr : g'.resetCount = true → g.resetCount = true)
    (hp : g'.printCount = true → g.printCount = true) : t.work g' ≤ t.work g := by
  unfold InstrThread.work
  cases t.pc
  case atLoop l p rest =>
    refine Nat.add_le_add_right ?_ _
    cases p
    case spinReset | spinResetStop =>
      simp only [loopWork]
      split
      · rw [if_pos (hr ‹_›)]
      · split <;> omega
    case spinPrint | spinPrintStop =>
      simp only [loopWork]
      split
      · rw [if_pos (hp ‹_›)]
      · split <;> omega
    all_goals exact Nat.le_refl _
  all_goals exact Nat.le_refl _

theorem work_nextLoop (g : Globals ι) (t : InstrThread) (rest : List TimingLoop) :
    InstrThread.work g { t with pc := nextLoop rest } ≤ workAfter rest := by
  cases rest with
  | nil => exact Nat.le_refl _
  | cons l rest =>
    have hentry : loopWork g l (entry l) ≤ l.loopIterations + 16 := by
      rw [entry]
      cases l.guard <;> simp only [loopWork] <;> omega
    exact Nat.add_le_add_right hentry _

theorem work_afterBody (g : Globals ι) (t : InstrThread) (l : TimingLoop)
    (rest : List TimingLoop) :
    InstrThread.work g { t with pc := afterBody l rest } ≤ 2 + workAfter rest := by
  unfold afterBody
  split
  · exact Nat.le_refl _
  · have hnext := work_nextLoop g t rest
    omega

/-- The INSTR thread has less work left, or spins. -/
def WorksOrSpins (g : Globals ι) (t : InstrThread) (g' : Globals ι) (t' : InstrThread) : Prop :=
  t'.work g' < t.work g ∨ Awaiting g t ∧ g' = g ∧ Awaiting g t' ∧ t'.work g = t.work g ∧
    ∀ n, answerDelay g n t' = answerDelay g n t

theorem WorksOrSpins.spin {g : Globals ι} {t t' : InstrThread} (h : Awaiting g t)
    (hr : t'.pc.awaitsReset = t.pc.awaitsReset) (hp : t'.pc.awaitsPrint = t.pc.awaitsPrint)
    (hw : t'.work g = t.work g) : WorksOrSpins g t g t' := by
  refine Or.inr ⟨h, rfl, ?_, hw, fun n => ?_⟩
  · rwa [Awaiting, hr, hp]
  · rw [answerDelay, answerDelay, hr, hp]

theorem nopTimingLoop_work {i : ι} {g : Globals ι} {env : Env} {t : InstrThread} {l : TimingLoop}
    {p : LoopPc} {rest : List TimingLoop} (hpc : t.pc = .atLoop l p rest)
    (hstop : t.shouldStop = false) :
    WorksOrSpins g t (nopTimingLoop i g env t l p rest).2.1
      (nopTimingLoop i g env t l p rest).2.2 := by
  have hwork : t.work g = loopWork g l p + workAfter rest := by
    rw [InstrThread.work, hpc]
  have hnext := fun g t => work_nextLoop (ι := ι) g t rest
  have hafter := fun g t => work_afterBody (ι := ι) g t l rest
  unfold nopTimingLoop
  cases p
  case spinReset =>
    cases hr : g.resetCount
    · left
      rw [hwork]
      simp only [InstrThread.work, loopWork, hr, Bool.false_eq_true, if_false]
      omega
    · simp only [if_true]
      refine .spin (Or.inl ⟨by rw [hpc]; rfl, hr⟩) (by rw [hpc]; rfl) (by rw [hpc]; rfl) ?_
      rw [hwork]
      simp only [InstrThread.work, loopWork, hr, if_true]
  case spinResetStop =>
    simp only [hstop, Bool.false_eq_true, if_false]
    cases hr : g.resetCount
    · left
      rw [hwork]
      simp only [InstrThread.work, loopWork, hr, Bool.false_eq_true, if_false]
      omega
    · refine .spin (Or.inl ⟨by rw [hpc]; rfl, hr⟩) (by rw [hpc]; rfl) (by rw [hpc]; rfl) ?_
      rw [hwork]
      simp only [InstrThread.work, loopWork, hr, if_true]
  case spinPrint =>
    cases hp : g.printCount
    · left
      rw [hwork]
      simp only [loopWork, hp, Bool.false_eq_true, if_false]
      have h := hafter g t
      omega
    · simp only [if_true]
      refine .spin (Or.inr ⟨by rw [hpc]; rfl, hp⟩) (by rw [hpc]; rfl) (by rw [hpc]; rfl) ?_
      rw [hwork]
      simp only [InstrThread.work, loopWork, hp, if_true]
  case spinPrintStop =>
    simp only [hstop, Bool.false_eq_true, if_false]
    cases hp : g.printCount
    · left
      rw [hwork]
      simp only [InstrThread.work, loopWork, hp, Bool.false_eq_true, if_false]
      omega
    · refine .spin (Or.inr ⟨by rw [hpc]; rfl, hp⟩) (by rw [hpc]; rfl) (by rw [hpc]; rfl) ?_
      rw [hwork]
      simp only [InstrThread.work, loopWork, hp, if_true]
  case forCall left =>
    left
    rw [hwork]
    cases left <;> simp only [InstrThread.work, loopWork] <;> omega
  case bootCpuHas f =>
    left
    rw [hwork]
    cases hb : env.bootCpuHas f
    · simp only [hb, Bool.false_eq_true, if_false, loopWork]
      have h := hnext g t
      omega
    · simp only [hb, if_true, InstrThread.work, loopWork]
      omega
  case testVmemAligned | testOnline =>
    left
    rw [hwork]
    simp only
    split <;> simp only [InstrThread.work, loopWork] <;> omega
  case zero =>
    left
    rw [hwork]
    have h := hafter g t
    simp only [loopWork]
    omega
  case irqEnable =>
    left
    rw [hwork]
    refine Nat.lt_of_le_of_lt (hnext g { t with irqs := true }) ?_
    simp only [loopWork]
    omega
  all_goals
    left
    rw [hwork]
    simp only [InstrThread.work, loopWork, if_true]
    omega

/-- **Every statement of the INSTR thread leaves it less work**, unless it spins. -/
theorem instrF_work {i : ι} {g g' : Globals ι} {env : Env} {t t' : InstrThread}
    {es : List (Event ι)} (h : instrF i g env t = some (es, g', t'))
    (hstop : t.shouldStop = true → t.Done) : WorksOrSpins g t g' t' := by
  unfold instrF at h
  split at h
  case isFalse => cases h
  case isTrue =>
    cases hpc : t.pc <;> simp only [hpc] at h
    case notCreated | exited => cases h
    case atLoop l p rest =>
      have hs : t.shouldStop = false := by
        refine Bool.eq_false_iff.mpr fun hs => ?_
        rcases hstop hs with hd | hd <;> rw [hpc] at hd <;> cases hd
      have hw : WorksOrSpins g t (nopTimingLoop i g env t l p rest).2.1
          (nopTimingLoop i g env t l p rest).2.2 := nopTimingLoop_work hpc hs
      rwa [Option.some.inj h] at hw
    case aggregating =>
      cases h
      left
      have hnext := work_nextLoop g t (nopLoops t.action)
      have hwork : t.work g = workAfter (nopLoops t.action) + 1 := by
        rw [InstrThread.work, hpc]
      rw [hwork]
      exact Nat.lt_succ_of_le hnext
    case created =>
      have hs : t.shouldStop = false := by
        refine Bool.eq_false_iff.mpr fun hs => ?_
        rcases hstop hs with hd | hd <;> rw [hpc] at hd <;> cases hd
      simp only [hs] at h
      cases h
      left
      simp only [InstrThread.work, hpc, Bool.false_eq_true, if_false]
      omega
    all_goals
      cases h
      left
      simp only [InstrThread.work, hpc]
      omega

/-- The NOP thread sets no flag. -/
theorem nopF_clears {i : ι} {g g' : Globals ι} {pending : Option Bool} {n n' : NopThread}
    {es : List (Event ι)} (h : nopF i g pending n = some (es, g', n')) :
    (g'.resetCount = true → g.resetCount = true) ∧
      (g'.printCount = true → g.printCount = true) := by
  unfold nopF at h
  split at h
  case isFalse => cases h
  case isTrue =>
    cases hpc : n.pc <;> simp only [hpc] at h
    case notCreated | exited | faulted => cases h
    case testSignal => rcases pending with _ | _ | _ <;> cases h <;> exact ⟨id, id⟩
    case ackReset => cases h; exact ⟨nofun, id⟩
    case ackPrint => cases h; exact ⟨id, nofun⟩
    all_goals cases h; exact ⟨id, id⟩

/-- While a reset is requested, every statement of the NOP thread brings its answer
nearer, or gives it. -/
theorem nopF_answersReset {i : ι} {g g' : Globals ι} {b : Bool} {n n' : NopThread}
    {es : List (Event ι)} (h : nopF i g (some b) n = some (es, g', n'))
    (hr : g.resetCount = true) (hstop : n.shouldStop = false) (hleft : ¬ n'.Left) :
    g'.resetCount = false ∨ g'.resetCount = true ∧ n'.pc.toAckReset < n.pc.toAckReset := by
  unfold nopF at h
  split at h
  case isFalse => cases h
  case isTrue =>
    cases hpc : n.pc <;> simp only [hpc] at h
    case notCreated | exited | faulted => cases h
    case testSignal =>
      cases b <;> cases h
      · exact Or.inr ⟨hr, Nat.le_of_ble_eq_true rfl⟩
      · exact absurd (Or.inl rfl) hleft
    case created | testStop =>
      simp only [hstop, Bool.false_eq_true, if_false] at h
      cases h
      exact Or.inr ⟨hr, Nat.le_of_ble_eq_true rfl⟩
    case testReset =>
      cases h
      simp only [hr]
      exact Or.inr ⟨trivial, Nat.le_of_ble_eq_true rfl⟩
    case testPrint =>
      cases h
      refine Or.inr ⟨hr, ?_⟩
      cases g.printCount <;> exact Nat.le_of_ble_eq_true rfl
    case ackReset => cases h; exact Or.inl rfl
    case doExit => cases h; exact absurd (Or.inr rfl) hleft
    all_goals
      cases h
      exact Or.inr ⟨hr, Nat.le_of_ble_eq_true rfl⟩

/-- While a print is requested, every statement of the NOP thread brings its answer
nearer, or gives it. -/
theorem nopF_answersPrint {i : ι} {g g' : Globals ι} {b : Bool} {n n' : NopThread}
    {es : List (Event ι)} (h : nopF i g (some b) n = some (es, g', n'))
    (hp : g.printCount = true) (hstop : n.shouldStop = false) (hleft : ¬ n'.Left) :
    g'.printCount = false ∨ g'.printCount = true ∧ n'.pc.toAckPrint < n.pc.toAckPrint := by
  unfold nopF at h
  split at h
  case isFalse => cases h
  case isTrue =>
    cases hpc : n.pc <;> simp only [hpc] at h
    case notCreated | exited | faulted => cases h
    case testSignal =>
      cases b <;> cases h
      · exact Or.inr ⟨hp, Nat.le_of_ble_eq_true rfl⟩
      · exact absurd (Or.inl rfl) hleft
    case created | testStop =>
      simp only [hstop, Bool.false_eq_true, if_false] at h
      cases h
      exact Or.inr ⟨hp, Nat.le_of_ble_eq_true rfl⟩
    case testReset =>
      cases h
      refine Or.inr ⟨hp, ?_⟩
      cases g.resetCount <;> exact Nat.le_of_ble_eq_true rfl
    case testPrint =>
      cases h
      simp only [hp]
      exact Or.inr ⟨trivial, Nat.le_of_ble_eq_true rfl⟩
    case ackPrint => cases h; exact Or.inl rfl
    case doExit => cases h; exact absurd (Or.inr rfl) hleft
    all_goals
      cases h
      exact Or.inr ⟨hp, Nat.le_of_ble_eq_true rfl⟩

/-- A NOP thread that is to stop comes nearer to its exit. -/
theorem nopF_exits {i : ι} {g g' : Globals ι} {b : Bool} {n n' : NopThread}
    {es : List (Event ι)} (h : nopF i g (some b) n = some (es, g', n'))
    (hstop : n.shouldStop = true) : n'.pc.toExit < n.pc.toExit := by
  unfold nopF at h
  split at h
  case isFalse => cases h
  case isTrue =>
    cases hpc : n.pc <;> simp only [hpc] at h
    case notCreated | exited | faulted => cases h
    case testSignal => cases b <;> cases h <;> exact Nat.le_of_ble_eq_true rfl
    case created | testStop =>
      simp only [hstop] at h
      cases h
      exact Nat.le_of_ble_eq_true rfl
    case testReset =>
      cases h
      cases g.resetCount <;> exact Nat.le_of_ble_eq_true rfl
    case testPrint =>
      cases h
      cases g.printCount <;> exact Nat.le_of_ble_eq_true rfl
    all_goals
      cases h
      exact Nat.le_of_ble_eq_true rfl

/-- The work of a thread that waits for a reset depends on the flag. -/
theorem work_of_awaitsReset {t : InstrThread} (h : t.pc.awaitsReset = true) :
    t.pc.awaitsPrint = false ∧ ∃ w, ∀ g : Globals ι,
      (g.resetCount = true → t.work g = w) ∧ (g.resetCount = false → t.work g < w) := by
  cases hpc : t.pc <;> rw [hpc] at h <;> try cases h
  rename_i l p rest
  cases p <;> try cases h
  all_goals
    refine ⟨rfl, 11 + l.loopIterations + workAfter rest, fun g => ⟨fun hr => ?_, fun hr => ?_⟩⟩
    · simp only [InstrThread.work, hpc, loopWork, hr, if_true]
    · simp only [InstrThread.work, hpc, loopWork, hr, Bool.false_eq_true, if_false]
      omega

/-- The work of a thread that waits for a print depends on the flag. -/
theorem work_of_awaitsPrint {t : InstrThread} (h : t.pc.awaitsPrint = true) :
    t.pc.awaitsReset = false ∧ ∃ w, ∀ g : Globals ι,
      (g.printCount = true → t.work g = w) ∧ (g.printCount = false → t.work g < w) := by
  cases hpc : t.pc <;> rw [hpc] at h <;> try cases h
  rename_i l p rest
  cases p <;> try cases h
  all_goals
    refine ⟨rfl, 5 + workAfter rest, fun g => ⟨fun hp => ?_, fun hp => ?_⟩⟩
    · simp only [InstrThread.work, hpc, loopWork, hp, if_true]
    · simp only [InstrThread.work, hpc, loopWork, hp, Bool.false_eq_true, if_false]
      omega

/-- **Every statement of the NOP thread brings the awaited answer nearer**, or gives it. -/
theorem nopF_answers {i : ι} {g g' : Globals ι} {b : Bool} {n n' : NopThread}
    {es : List (Event ι)} {t : InstrThread} (h : nopF i g (some b) n = some (es, g', n'))
    (haw : Awaiting g t) (hstop : n.shouldStop = false) (hleft : ¬ n'.Left) :
    t.work g' < t.work g ∨ t.work g' = t.work g ∧ Awaiting g' t ∧
      answerDelay g' n'.pc t < answerDelay g n.pc t := by
  rcases haw with ⟨hw, hr⟩ | ⟨hw, hp⟩
  · obtain ⟨-, w, hwork⟩ := work_of_awaitsReset (ι := ι) hw
    rw [(hwork g).1 hr]
    obtain hr' | ⟨hr', hlt⟩ := nopF_answersReset h hr hstop hleft
    · exact Or.inl ((hwork g').2 hr')
    · refine Or.inr ⟨(hwork g').1 hr', Or.inl ⟨hw, hr'⟩, ?_⟩
      rwa [answerDelay, answerDelay, if_pos ⟨hw, hr'⟩, if_pos ⟨hw, hr⟩]
  · obtain ⟨hno, w, hwork⟩ := work_of_awaitsPrint (ι := ι) hw
    rw [(hwork g).1 hp]
    obtain hp' | ⟨hp', hlt⟩ := nopF_answersPrint h hp hstop hleft
    · exact Or.inl ((hwork g').2 hp')
    · refine Or.inr ⟨(hwork g').1 hp', Or.inr ⟨hw, hp'⟩, ?_⟩
      have hfalse : ∀ g : Globals ι, ¬ (t.pc.awaitsReset = true ∧ g.resetCount = true) := by
        rintro g ⟨hr, -⟩
        rw [hno] at hr
        cases hr
      rwa [answerDelay, answerDelay, if_neg (hfalse _), if_neg (hfalse _), if_pos ⟨hw, hp'⟩,
        if_pos ⟨hw, hp⟩]

theorem answerDelay_of_not_awaiting {g : Globals ι} {t : InstrThread} (h : ¬ Awaiting g t)
    (n : NopPc) : answerDelay g n t = 0 := by
  rw [answerDelay, if_neg fun hr => h (Or.inl hr), if_neg fun hp => h (Or.inr hp)]

/-! ## One step -/

section Steps

variable [DecidableEq ι] {s s' : State ι} {i : ι} {es : List (Event ι)}

/-- Whose turn it is in call `i`. -/
def State.turn (s : State ι) (i : ι) : Party :=
  NopTimer.turn (s.call i).pc s.globals (s.nop i).pc (s.instr i)

/-- **A statement of the caller brings it further**, unless it polls. -/
theorem call_advances (h : Inv s) (hs : step s (.call i none) = some (es, s')) :
    (s.call i).pc.stage < (s'.call i).pc.stage ∨
      s'.globals = s.globals ∧ s'.nop = s.nop ∧ s'.instr = s.instr ∧
        ((s.call i).pc = .poll ∧ s.globals.finish = false ∧ (s'.call i).pc = .sleep ∨
          (s.call i).pc = .sleep ∧ (s'.call i).pc = .poll) := by
  change nopTimingStart s i none = some (es, s') at hs
  have hw := h.owner i
  unfold nopTimingStart at hs
  cases hpc : (s.call i).pc <;> simp only [hpc] at hs
  case notCalled | returned | faulted => cases hs
  all_goals
    rw [hpc] at hw
    simp only [CallPc.InSection, CallPc.stage, Nat.reduceLeDiff, and_self, and_false,
      forall_const, false_implies] at hw
  case testNop | testInstr | bindNop | bindInstr =>
    have hp := hw.nopTh (by simp [CallPc.stage])
    have hq := hw.instrTh (by simp [CallPc.stage])
    simp only [hp, hq, reduceCtorEq, if_false] at hs
    cases hs
    simp [CallPc.stage]
  case wakeNop | stopNop =>
    rw [hw.nopTh (by simp [CallPc.stage])] at hs
    cases hs
    simp [CallPc.stage]
  case wakeInstr | stopInstr =>
    rw [hw.instrTh (by simp [CallPc.stage])] at hs
    cases hs
    simp [CallPc.stage]
  case poll =>
    cases hfin : s.globals.finish <;> rw [hfin] at hs <;> cases hs <;> simp [CallPc.stage]
  case joinNop j | joinInstr j => split at hs <;> cases hs; simp [CallPc.stage]
  all_goals cases hs; simp [CallPc.stage]

omit [DecidableEq ι] in
theorem rank_lt_of_stage (h : (s.call i).pc.stage < (s'.call i).pc.stage)
    (hle : (s'.call i).pc.stage ≤ 17) : s'.rank i < s.rank i :=
  Prod.Lex.toLex_lt_toLex.mpr (Or.inl (by simp only; omega))

omit [DecidableEq ι] in
theorem rank_lt_of_work (hc : s'.call i = s.call i)
    (hw : (s'.instr i).work s'.globals < (s.instr i).work s.globals) : s'.rank i < s.rank i := by
  unfold State.rank
  rw [hc]
  exact Prod.Lex.toLex_lt_toLex.mpr (Or.inr ⟨rfl, Prod.Lex.toLex_lt_toLex.mpr (Or.inl hw)⟩)

omit [DecidableEq ι] in
theorem rank_lt_of_delay (hc : (s'.call i).pc.stage = (s.call i).pc.stage)
    (hw : (s'.instr i).work s'.globals = (s.instr i).work s.globals)
    (hd : delay (s'.call i).pc s'.globals (s'.nop i).pc (s'.instr i) <
      delay (s.call i).pc s.globals (s.nop i).pc (s.instr i)) : s'.rank i < s.rank i := by
  unfold State.rank
  rw [hc, hw]
  exact Prod.Lex.toLex_lt_toLex.mpr (Or.inr ⟨rfl, Prod.Lex.toLex_lt_toLex.mpr (Or.inr ⟨rfl, hd⟩)⟩)

omit [DecidableEq ι] in
/-- A step that does not concern call `i` leaves its rank and its turn. -/
theorem rank_of_frame (hc : s'.call i = s.call i) (hn : (s'.nop i).pc = (s.nop i).pc)
    (ht : s'.instr i = s.instr i)
    (hg : s'.globals.resetCount = s.globals.resetCount ∧
      s'.globals.printCount = s.globals.printCount) :
    s'.rank i = s.rank i ∧ s'.turn i = s.turn i := by
  have haw : Awaiting s'.globals (s.instr i) ↔ Awaiting s.globals (s.instr i) := by
    rw [Awaiting, Awaiting, hg.1, hg.2]
  have hdelay : ∀ n,
      answerDelay s'.globals n (s.instr i) = answerDelay s.globals n (s.instr i) := by
    intro n
    rw [answerDelay, answerDelay, hg.1, hg.2]
  constructor
  · rw [State.rank, State.rank, hc, hn, ht, work_congr hg.1 hg.2]
    simp only [delay, hdelay]
  · rw [State.turn, State.turn, hc, hn, ht]
    simp only [turn, haw]

omit [DecidableEq ι] in
/-- While the caller waits for its INSTR thread, the globals no longer matter to it. -/
theorem rank_of_joining {j : ι} (hpc : (s.call i).pc = .joinInstr j) (hd : (s.instr i).Done)
    (hc : s'.call i = s.call i) (ht : s'.instr i = s.instr i) :
    s'.rank i = s.rank i ∧ s'.turn i = s.turn i := by
  have hwork : ∀ g : Globals ι, (s.instr i).work g = (s.instr i).work s.globals := by
    intro g
    unfold InstrThread.work
    rcases hd with hd | hd <;> rw [hd]
  constructor
  · rw [State.rank, State.rank, hc, ht, hwork s'.globals, hpc]
    rfl
  · rw [State.turn, State.turn, hc, ht, hpc]
    rfl

/-- Call `i` has begun, and the NOP thread it needs has not left. -/
structure Live (s : State ι) (i : ι) : Prop where
  inv : Inv s
  begun : (s.call i).pc ≠ .notCalled
  answered : (s.call i).pc.InSection → (s.nop i).Left → ¬ Awaiting s.globals (s.instr i)

omit [DecidableEq ι] in
theorem CallPc.joins_of_not_inSection {c : CallPc ι} (hbegun : c ≠ .notCalled)
    (hreturned : c ≠ .returned) (hfault : c ≠ .faulted) (hout : ¬ c.InSection) :
    ∃ j, c = .joinInstr j := by
  cases c
  case joinInstr j => exact ⟨j, rfl⟩
  case notCalled => exact absurd rfl hbegun
  case returned => exact absurd rfl hreturned
  case faulted => exact absurd rfl hfault
  all_goals exact absurd ⟨by simp [CallPc.stage], by simp [CallPc.stage]⟩ hout

omit [DecidableEq ι] in
theorem Live.joins (h : Live s i) (hgoal : (s.call i).pc ≠ .returned)
    (hout : ¬ (s.call i).pc.InSection) :
    (∃ j, (s.call i).pc = .joinInstr j) ∧ (s.instr i).Done := by
  obtain ⟨j, hpc⟩ := CallPc.joins_of_not_inSection h.begun hgoal (h.inv.own i).noFault.1 hout
  exact ⟨⟨j, hpc⟩, (h.inv.own i).instrDone (by rw [hpc, CallPc.stage]; omega)⟩

omit [DecidableEq ι] in
/-- The INSTR thread waits only while the caller polls. -/
theorem Live.polls (h : Live s i) (haw : Awaiting s.globals (s.instr i)) :
    (s.call i).pc = .poll ∨ (s.call i).pc = .sleep := by
  have ho := h.inv.own i
  have hle : (s.call i).pc.stage ≤ 12 := by
    by_contra hlt
    exact haw.not_done (ho.instrDone (by omega))
  have hge : 12 ≤ (s.call i).pc.stage := by
    by_contra hlt
    rcases ho.instrAsleep (by omega) with hpc | hpc
    all_goals rcases haw with ⟨hw, -⟩ | ⟨hw, -⟩ <;> rw [hpc] at hw <;> cases hw
  cases hpc : (s.call i).pc <;> rw [hpc, CallPc.stage] at hle hge
  case poll => exact Or.inl rfl
  case sleep => exact Or.inr rfl
  all_goals omega

omit [DecidableEq ι] in
theorem acts_actor {p : Party} {a : Action ι} (h : p.Acts i a) : a.actor = i := by
  cases p <;> cases a <;> first | exact h | cases h

omit [DecidableEq ι] in
theorem not_acts_sigkill {p : Party} {j : ι} : ¬ p.Acts i (.sigkill j) := by
  cases p <;> exact id

/-- A call that has begun has begun for good. -/
theorem begun_step {a : Action ι} (h : Inv s) (hc : Creates s a) (hs : step s a = some (es, s'))
    (hbegun : (s.call i).pc ≠ .notCalled) : (s'.call i).pc ≠ .notCalled := by
  cases a with
  | begin j action =>
    obtain ⟨hpc, -, rfl⟩ := begin_eq hs
    have hij : i ≠ j := by
      rintro rfl
      exact hbegun hpc
    simpa only [Function.update_of_ne hij] using hbegun
  | call j err =>
    obtain rfl : err = none := hc
    by_cases hij : i = j
    · subst hij
      intro hpc
      have hstage := (call_step h hs).stage.1
      rw [hpc, CallPc.stage] at hstage
      cases hpc : (s.call i).pc <;> rw [hpc, CallPc.stage] at hstage
      case notCalled => exact hbegun hpc
      all_goals omega
    · have hkeeps := keeps_step (a := .call j none) h (by simp) rfl hs
      rwa [hkeeps.frame.call i hij]
  | nop j | instr j _ =>
    obtain ⟨r, -, he⟩ := Option.map_eq_some_iff.mp hs
    obtain ⟨-, rfl⟩ := Prod.mk.inj he
    exact hbegun
  | sigkill j =>
    obtain ⟨-, rfl⟩ := Prod.mk.inj (Option.some.inj hs)
    exact hbegun

/-- **A step of another call** changes nothing for call `i`. -/
theorem Live.other {a : Action ι} (h : Live s i) (hgoal : (s.call i).pc ≠ .returned)
    (hser : Serial s a) (hc : Creates s a) (hs : step s a = some (es, s')) (ha : a.actor ≠ i) :
    s'.rank i = s.rank i ∧ s'.turn i = s.turn i := by
  by_cases hbegin : ∃ j action, a = .begin j action
  · obtain ⟨j, action, rfl⟩ := hbegin
    obtain ⟨-, -, rfl⟩ := begin_eq hs
    obtain ⟨⟨k, hpc⟩, hd⟩ := h.joins hgoal (hser i)
    exact rank_of_joining hpc hd (Function.update_of_ne (Ne.symm ha) _ _) rfl
  · push Not at hbegin
    have hf := (keeps_step h.inv hbegin hc hs).frame
    have hi : i ≠ a.actor := Ne.symm ha
    by_cases hsec : (s.call i).pc.InSection
    · have hglobals : s'.globals = s.globals :=
        hf.globals fun hact => hi (h.inv.exclusive _ _ hsec hact)
      refine rank_of_frame (hf.call i hi) ?_ (hf.instr i hi) ?_
      · rw [hf.nop i hi]
      · rw [hglobals]
        exact ⟨rfl, rfl⟩
    · obtain ⟨⟨k, hpc⟩, hd⟩ := h.joins hgoal hsec
      exact rank_of_joining hpc hd (hf.call i hi) (hf.instr i hi)

/-- Call `i` is no nearer to its return, and it is somebody else's turn. -/
def Waits (s : State ι) (i : ι) (p : Party) (s' : State ι) : Prop :=
  s'.rank i = s.rank i ∧ s'.turn i = s.turn i ∧ s.turn i ≠ p

/-- A statement of the caller. -/
theorem Live.call (h : Live s i) (h' : Live s' i) (hs : step s (.call i none) = some (es, s')) :
    s'.rank i < s.rank i ∨ Waits s i .caller s' := by
  rcases call_advances h.inv hs with hlt | ⟨hg, hn, ht, hpoll⟩
  · refine Or.inl (rank_lt_of_stage hlt ?_)
    have hfault := (h'.inv.own i).noFault.1
    cases hpc : (s'.call i).pc <;> simp only [CallPc.stage] <;>
      first | omega | exact absurd hpc hfault
  · by_cases hd : (s.instr i).pc = .doExit ∨ (s.instr i).pc = .exited
    · -- the INSTR thread is done: the caller has slept, and polls once more
      rcases hpoll with ⟨hpc, hfin, -⟩ | ⟨hpc, hpc'⟩
      · have how := h.inv.owner i
          ⟨by rw [hpc, CallPc.stage]; omega, by rw [hpc, CallPc.stage]; omega⟩
        have hdone := (how.finish (by rw [hpc, CallPc.stage]; omega)).mpr hd
        rw [hfin] at hdone
        cases hdone
      · have haw : ¬ Awaiting s.globals (s.instr i) := fun haw => haw.not_done hd
        refine Or.inl (rank_lt_of_delay (by rw [hpc, hpc']; rfl) (by rw [hg, ht]) ?_)
        rw [hpc, hpc', hg, hn, ht]
        simp only [delay, if_pos hd, answerDelay_of_not_awaiting haw]
        exact Nat.zero_lt_one
    · refine Or.inr ?_
      have hstage : (s'.call i).pc.stage = (s.call i).pc.stage := by
        rcases hpoll with ⟨hpc, -, hpc'⟩ | ⟨hpc, hpc'⟩ <;> rw [hpc, hpc'] <;> rfl
      unfold Waits State.rank State.turn
      rw [hstage, hg, hn, ht]
      rcases hpoll with ⟨hpc, -, hpc'⟩ | ⟨hpc, hpc'⟩ <;> rw [hpc, hpc']
      all_goals
        refine ⟨by simp only [delay, if_neg hd], rfl, ?_⟩
        simp only [turn, if_neg hd]
        split <;> exact Party.noConfusion

/-- A statement of the NOP thread. -/
theorem Live.nopStep (h : Live s i) (h' : Live s' i) (hgoal : (s.call i).pc ≠ .returned)
    (hs : step s (.nop i) = some (es, s')) :
    s'.rank i < s.rank i ∨ Waits s i .nop s' := by
  obtain ⟨⟨es', g', n'⟩, hr, he⟩ := Option.map_eq_some_iff.mp hs
  obtain ⟨rfl, rfl⟩ := Prod.mk.inj he
  have hn := nopF_step hr
  have ho := h.inv.own i
  have h11 := ho.nopAwake.mp hn.awake.1
  have hsec : (s.call i).pc.InSection := by
    by_contra hout
    obtain ⟨⟨j, hpc⟩, -⟩ := h.joins hgoal hout
    exact hn.running.2 (ho.nopExited (by rw [hpc, CallPc.stage]; omega))
  rw [(h.inv.owner i hsec).nopTh (by omega), State.signalPending] at hr
  obtain ⟨hclr, hclp⟩ := nopF_clears hr
  by_cases haw : Awaiting s.globals (s.instr i)
  · have hpolls := h.polls haw
    have hstop : (s.nop i).shouldStop = false := by
      refine Bool.eq_false_iff.mpr fun hstop => ?_
      have h14 := ho.nopStop.mp hstop
      rcases hpolls with hpc | hpc <;> rw [hpc, CallPc.stage] at h14 <;> omega
    have hleft : ¬ n'.Left := by
      intro hleft
      have hg : g' = s.globals := by
        rcases hleft with hl | hl
        · exact (hn.leaves hl).1
        · exact (hn.exits hl).1
      have hnot := h'.answered (by simpa using hsec) (by simpa using hleft)
      exact hnot (by simpa [hg] using haw)
    obtain hlt | ⟨hw, haw', hd⟩ := nopF_answers hr haw hstop hleft
    · exact Or.inl (rank_lt_of_work rfl (by simpa using hlt))
    · refine Or.inl (rank_lt_of_delay rfl (by simpa using hw) ?_)
      have hnd := haw.not_done
      unfold InstrThread.Done at hnd
      rcases hpolls with hpc | hpc
      all_goals
        simp only [setGlobals_call, setNop_call, setGlobals_nop, setNop_nop_self,
          setGlobals_globals, setGlobals_instr, setNop_instr, hpc, delay, if_neg hnd]
        exact hd
  · have haw' : ¬ Awaiting g' (s.instr i) := by
      rintro (⟨hw, hr⟩ | ⟨hw, hp⟩)
      · exact haw (Or.inl ⟨hw, hclr hr⟩)
      · exact haw (Or.inr ⟨hw, hclp hp⟩)
    rcases Nat.lt_or_eq_of_le (work_le_of_cleared (t := s.instr i) hclr hclp) with hlt | hw
    · exact Or.inl (rank_lt_of_work rfl (by simpa using hlt))
    · by_cases hjoin : ∃ j, (s.call i).pc = .joinNop j
      · obtain ⟨j, hpc⟩ := hjoin
        refine Or.inl (rank_lt_of_delay rfl (by simpa using hw) ?_)
        have hstop := ho.nopStop.mpr (by rw [hpc, CallPc.stage])
        simp only [setGlobals_call, setNop_call, setGlobals_nop, setNop_nop_self, hpc, delay]
        exact nopF_exits hr hstop
      · refine Or.inr ?_
        unfold Waits State.rank State.turn
        simp only [setGlobals_call, setNop_call, setGlobals_nop, setNop_nop_self,
          setGlobals_globals, setGlobals_instr, setNop_instr, hw]
        cases hpc : (s.call i).pc
        case joinNop j => exact absurd ⟨j, hpc⟩ hjoin
        case joinInstr j =>
          exact absurd (ho.nopExited (by rw [hpc, CallPc.stage]; omega)) hn.running.2
        case poll | sleep =>
          simp only [delay, turn, if_neg haw, if_neg haw', answerDelay_of_not_awaiting haw,
            answerDelay_of_not_awaiting haw']
          refine ⟨trivial, trivial, ?_⟩
          split <;> exact Party.noConfusion
        all_goals exact ⟨rfl, rfl, Party.noConfusion⟩

/-- A statement of the INSTR thread. -/
theorem Live.instrStep {env : Env} (h : Live s i) (hs : step s (.instr i env) = some (es, s')) :
    s'.rank i < s.rank i ∨ Waits s i .instr s' := by
  obtain ⟨⟨es', g', t'⟩, hr, he⟩ := Option.map_eq_some_iff.mp hs
  obtain ⟨rfl, rfl⟩ := Prod.mk.inj he
  have ho := h.inv.own i
  have hstop : (s.instr i).shouldStop = true → (s.instr i).Done := by
    intro hstop
    have h16 := ho.instrStop.mp hstop
    exact ho.instrDone (by omega)
  obtain hlt | ⟨haw, rfl, haw', hw, hd⟩ := instrF_work hr hstop
  · exact Or.inl (rank_lt_of_work rfl (by simpa using hlt))
  · refine Or.inr ?_
    have hnd := haw.not_done
    have hnd' := haw'.not_done
    unfold InstrThread.Done at hnd hnd'
    unfold Waits State.rank State.turn
    simp only [setGlobals_call, setInstr_call, setGlobals_nop, setInstr_nop,
      setGlobals_globals, setGlobals_instr, setInstr_instr_self, hw]
    rcases h.polls haw with hpc | hpc <;> rw [hpc]
    all_goals
      simp only [delay, turn, if_neg hnd, if_neg hnd', if_pos haw, if_pos haw', hd]
      exact ⟨trivial, trivial, nofun⟩

/-- The steps the theorem is about: calls are serialised, threads are created, and no
request is left to a NOP thread that has obeyed a signal. -/
def Cooperative (s : State ι) (a : Action ι) : Prop := Creates s a ∧ Serial s a ∧ Answered s a

instance [Fintype ι] (s : State ι) (a : Action ι) : Decidable (Cooperative s a) :=
  inferInstanceAs (Decidable (_ ∧ _ ∧ _))

/-- **Every step brings call `i` nearer to its return**, or somebody else's turn stays. -/
theorem Live.advances {a : Action ι} (h : Live s i) (h' : Live s' i)
    (hgoal : (s.call i).pc ≠ .returned) (hg : Cooperative s a) (hs : step s a = some (es, s')) :
    System.Execution.Advances (Party.Acts i) (State.rank · i) (State.turn · i) s a s' := by
  by_cases ha : a.actor = i
  · -- a step of the party that is not awaited is no step of the one that is
    have hwaits : ∀ p : Party, (∀ q : Party, q.Acts i a → q = p) → Waits s i p s' →
        System.Execution.Advances (Party.Acts i) (State.rank · i) (State.turn · i) s a s' :=
      fun p hp ⟨hrank, hturn, hne⟩ => Or.inr ⟨hrank, hturn, fun hacts => hne (hp _ hacts)⟩
    cases a with
    | begin j action =>
      obtain rfl : j = i := ha
      exact absurd (begin_eq hs).1 h.begun
    | call j err =>
      obtain rfl : j = i := ha
      obtain rfl : err = none := hg.1
      refine (h.call h' hs).elim Or.inl (hwaits .caller ?_)
      intro q hq
      cases q <;> first | rfl | cases hq
    | nop j =>
      obtain rfl : j = i := ha
      refine (h.nopStep h' hgoal hs).elim Or.inl (hwaits .nop ?_)
      intro q hq
      cases q <;> first | rfl | cases hq
    | instr j env =>
      obtain rfl : j = i := ha
      refine (h.instrStep hs).elim Or.inl (hwaits .instr ?_)
      intro q hq
      cases q <;> first | rfl | cases hq
    | sigkill j =>
      obtain rfl : j = i := ha
      obtain ⟨rfl, rfl⟩ := Prod.mk.inj (Option.some.inj hs)
      obtain ⟨hrank, hturn⟩ :=
        @rank_of_frame _ s (s.setNop j { s.nop j with sigPending := true }) j rfl (by simp) rfl
          ⟨rfl, rfl⟩
      exact Or.inr ⟨hrank, hturn, not_acts_sigkill⟩
  · obtain ⟨hrank, hturn⟩ := h.other hgoal hg.2.1 hg.1 hs ha
    exact Or.inr ⟨hrank, hturn, fun hacts => ha (acts_actor hacts)⟩

omit [DecidableEq ι] in
theorem nopF_enabled {g : Globals ι} {pending : Option Bool} {n : NopThread}
    (hawake : n.awake = true) (hcreated : n.pc ≠ .notCreated) (hexited : n.pc ≠ .exited)
    (hfault : n.pc ≠ .faulted) : nopF i g pending n ≠ none := by
  unfold nopF
  rw [if_pos hawake]
  cases hpc : n.pc
  case notCreated => exact absurd hpc hcreated
  case exited => exact absurd hpc hexited
  case faulted => exact absurd hpc hfault
  case testSignal => rcases pending with _ | _ | _ <;> nofun
  all_goals nofun

omit [DecidableEq ι] in
theorem instrF_enabled {g : Globals ι} {env : Env} {t : InstrThread} (hawake : t.awake = true)
    (hcreated : t.pc ≠ .notCreated) (hexited : t.pc ≠ .exited) : instrF i g env t ≠ none := by
  unfold instrF
  rw [if_pos hawake]
  cases hpc : t.pc
  case notCreated => exact absurd hpc hcreated
  case exited => exact absurd hpc hexited
  all_goals nofun

/-- **Whoever's turn it is can move.** -/
theorem Live.enabled (h : Live s i) (hgoal : (s.call i).pc ≠ .returned) :
    system.Enabled ((s.turn i).Acts i) s := by
  have ho := h.inv.own i
  have hcall : s.turn i = .caller → nopTimingStart s i none ≠ none →
      system.Enabled ((s.turn i).Acts i) s := by
    intro hturn hne
    rw [hturn]
    exact ⟨.call i none, rfl, hne⟩
  have hnop : s.turn i = .nop → 11 ≤ (s.call i).pc.stage → (s.nop i).pc ≠ .exited →
      system.Enabled ((s.turn i).Acts i) s := by
    intro hturn h11 hexited
    rw [hturn]
    refine ⟨.nop i, rfl, ?_⟩
    have hcreated : (s.nop i).pc ≠ .notCreated := fun hpc => by
      have h4 := ho.nopCreated.mp hpc
      omega
    simp only [system, step, ne_eq, Option.map_eq_none_iff]
    exact nopF_enabled (ho.nopAwake.mpr h11) hcreated hexited ho.noFault.2
  have hinstr : s.turn i = .instr → 12 ≤ (s.call i).pc.stage → (s.instr i).pc ≠ .exited →
      system.Enabled ((s.turn i).Acts i) s := by
    intro hturn h12 hexited
    rw [hturn]
    refine ⟨.instr i ⟨0, fun _ => false, 0⟩, rfl, ?_⟩
    have hcreated : (s.instr i).pc ≠ .notCreated := fun hpc => by
      have h5 := ho.instrCreated.mp hpc
      omega
    simp only [system, step, ne_eq, Option.map_eq_none_iff]
    exact instrF_enabled (ho.instrAwake.mpr h12) hcreated hexited
  cases hpc : (s.call i).pc
  case notCalled => exact absurd hpc h.begun
  case returned => exact absurd hpc hgoal
  case faulted => exact absurd hpc ho.noFault.1
  case poll | sleep =>
    have hstage : (s.call i).pc.stage = 12 := by rw [hpc, CallPc.stage]
    by_cases hd : (s.instr i).pc = .doExit ∨ (s.instr i).pc = .exited
    · refine hcall (by simp only [State.turn, turn, hpc, if_pos hd]) ?_
      simp only [nopTimingStart, hpc]
      exact Option.some_ne_none _
    · by_cases haw : Awaiting s.globals (s.instr i)
      · refine hnop (by simp only [State.turn, turn, hpc, if_neg hd, if_pos haw]) (by omega) ?_
        intro hexited
        exact h.answered ⟨by omega, by omega⟩ (Or.inr hexited) haw
      · exact hinstr (by simp only [State.turn, turn, hpc, if_neg hd, if_neg haw]) (by omega)
          fun hexited => hd (Or.inr hexited)
  case joinNop j =>
    obtain rfl := ho.joinsNop j hpc
    by_cases hex : (s.nop j).pc = .exited
    · refine hcall (by simp only [State.turn, turn, hpc, if_pos hex]) ?_
      simp only [nopTimingStart, hpc, if_pos hex]
      exact Option.some_ne_none _
    · exact hnop (by simp only [State.turn, turn, hpc, if_neg hex])
        (by rw [hpc, CallPc.stage]; omega) hex
  case joinInstr j =>
    obtain rfl := ho.joinsInstr j hpc
    by_cases hex : (s.instr j).pc = .exited
    · refine hcall (by simp only [State.turn, turn, hpc, if_pos hex]) ?_
      simp only [nopTimingStart, hpc, if_pos hex]
      exact Option.some_ne_none _
    · exact hinstr (by simp only [State.turn, turn, hpc, if_neg hex])
        (by rw [hpc, CallPc.stage]; omega) hex
  all_goals
    refine hcall (by simp only [State.turn, turn, hpc]) ?_
    simp only [nopTimingStart, hpc]
    try split
  all_goals exact Option.some_ne_none _

omit [DecidableEq ι] in
/-- Both threads of a call have exited when it returns. -/
theorem Inv.exited (h : Inv s) (hret : (s.call i).pc = .returned) :
    (s.nop i).pc = .exited ∧ (s.instr i).pc = .exited :=
  ⟨(h.own i).nopExited (by rw [hret, CallPc.stage]; omega),
    (h.own i).instrExited (by rw [hret, CallPc.stage])⟩

/-- A call that has begun comes to its `return`. -/
theorem eventually_returned (e : system.Execution Cooperative (initial : State ι))
    (hfair : ∀ p : Party, e.Fair (p.Acts i)) {n : Nat}
    (hbegun : ((e.state n).call i).pc ≠ .notCalled) :
    ∃ m, n ≤ m ∧ Inv (e.state m) ∧ ((e.state m).call i).pc = .returned := by
  have hG : ∀ (s : State ι) (a : Action ι), Cooperative s a → Serial s a ∧ Creates s a :=
    fun _ _ hg => ⟨hg.2.1, hg.1⟩
  have hinv : ∀ m, Inv (e.state m) := by
    intro m
    obtain ⟨evs, hrun⟩ := e.exists_run m
    exact inv_run hG hrun
  have hlive : ∀ m, n ≤ m → Live (e.state m) i := by
    intro m hm
    obtain ⟨evs, hrun⟩ := e.exists_run m
    refine ⟨hinv m, ?_, fun hsec hleft => answered_run hrun hsec hleft⟩
    exact e.stays (P := fun s => (s.call i).pc ≠ .notCalled)
      (fun m a es _ hbegun hg hs => begun_step (hinv m) hg.1 hs hbegun) hbegun hm
  obtain ⟨m, hm, hret⟩ := System.Execution.eventually (State.rank · i) (State.turn · i)
    (Live · i) (fun s => (s.call i).pc = .returned) hfair hlive
    (fun _ h hgoal => h.enabled hgoal)
    (fun _ _ _ _ h h' hgoal hg hs => h.advances h' hgoal hg hs)
  exact ⟨m, hm, hinv m, hret⟩

/-- **So it is if nobody is killed.** -/
theorem call_returns_of_noKill
    (e : system.Execution (fun s a => Creates s a ∧ Serial s a ∧ NoKill s a) (initial : State ι))
    (hfair : ∀ p : Party, e.Fair (p.Acts i)) {n : Nat}
    (hbegun : ((e.state n).call i).pc ≠ .notCalled) :
    ∃ m, n ≤ m ∧ ((e.state m).call i).pc = .returned ∧ ((e.state m).nop i).pc = .exited ∧
      ((e.state m).instr i).pc = .exited := by
  have hanswered : ∀ m a, e.act m = some a → Answered (e.state m) a := by
    intro m a _
    obtain ⟨evs, hrun⟩ := e.exists_run m
    obtain ⟨hinv, hu⟩ := unkilled_run hrun
    exact answered_of_unkilled hinv hu a
  obtain ⟨m, hm, hinvm, hret⟩ := eventually_returned
    (e.narrow fun m a ha hg => ⟨hg.1, hg.2.1, hanswered m a ha⟩) hfair hbegun
  exact ⟨m, hm, hret, hinvm.exited hret⟩

end Steps

end EcrToolkit.NopTimer
