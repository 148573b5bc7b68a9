import EcrToolkit.BufferGuard
import EcrToolkit.NopHandshake
import EcrToolkit.NopIsolation
import EcrToolkit.WallEffects

/-!
# What the INSTR threads execute

`NopTimer.system` lets one step stand for a call of a function of `instructions.c`.  Here the
calls are recorded, with the state of the interrupt flag of the CPU that the thread is bound to.
Whatever the interleaving, and however many calls of `nop_timing_start` overlap, the calls of a
thread follow its table (`InstrPc.CallsLeft`), and interrupts are suspended in those that
`SUSPEND_INTERRUPTS` stands around (`Bracketed`).  So a thread leaves the machine as a WALL ioctl
does.
-/
namespace EcrToolkit

/-- The functions that are called with interrupts suspended. -/
def InstrF.suspended : InstrF → Bool
  | .movFromCr8 | .movToCr0 | .movToCr3 | .movToCr4 | .movToCr8 | .movDr0 | .movDr1 | .movDr2
  | .movDr3 | .movDr4 | .movDr5 | .movDr6 | .movDr7 => true
  | _ => false

namespace NopTimer

open SystemCode Transitions

variable {ι : Type}

/-! ## The record of the calls -/

/-- A call that an INSTR thread makes, and whether interrupts are enabled. -/
structure ThreadCall (ι : Type) where
  thread : ι
  call : InstrCall
  irqs : Bool

/-- The call that a step makes. -/
def callMade (s : State ι) : Action ι → List (ThreadCall ι)
  | .instr i env =>
    match (s.instr i).pc with
    | .atLoop l (.forCall (_ + 1)) _ => [⟨i, ⟨l.functionCall, env.vmemAligned⟩, (s.instr i).irqs⟩]
    | _ => []
  | _ => []

variable [DecidableEq ι]

/-- The NOP timer with its calls on record. -/
def callingSystem : System (State ι) (Action ι) (Event ι ⊕ ThreadCall ι) :=
  system.recording callMade

/-- The calls on record. -/
def callsIn (evs : List (Event ι ⊕ ThreadCall ι)) : List (ThreadCall ι) :=
  evs.filterMap Sum.getRight?

/-- Those of the thread of call `i`. -/
def callsOf (i : ι) (evs : List (Event ι ⊕ ThreadCall ι)) : List InstrCall :=
  ((callsIn evs).filter (·.thread = i)).map (·.call)

omit [DecidableEq ι] in
theorem callsIn_append (evs es : List (Event ι ⊕ ThreadCall ι)) :
    callsIn (evs ++ es) = callsIn evs ++ callsIn es := List.filterMap_append

theorem callsOf_append (i : ι) (evs es : List (Event ι ⊕ ThreadCall ι)) :
    callsOf i (evs ++ es) = callsOf i evs ++ callsOf i es := by
  rw [callsOf, callsIn_append, List.filter_append, List.map_append]
  rfl

omit [DecidableEq ι] in
/-- What a step puts on record. -/
theorem callsIn_recorded (es : List (Event ι)) (cs : List (ThreadCall ι)) :
    callsIn (es.map .inl ++ cs.map .inr) = cs := System.right_recorded es cs

/-! ## The calls that are left -/

/-- The calls a loop has still to make, from a place inside it. -/
def LoopPc.CallsLeft (l : TimingLoop) : LoopPc → List InstrF → Prop
  | .bootCpuHas _, fs | .testVmemAligned, fs =>
    fs = List.replicate l.loopIterations l.functionCall ∨ fs = []
  | .irqSave, fs | .irqDisable, fs | .testOnline, fs | .setReset, fs | .spinReset, fs
  | .spinResetStop, fs => fs = List.replicate l.loopIterations l.functionCall
  | .forCall left, fs => fs = List.replicate left l.functionCall
  | .zero, fs | .label, fs | .setPrint, fs | .spinPrint, fs | .spinPrintStop, fs
  | .irqRestore, fs | .irqEnable, fs => fs = []

/-- The calls a thread has still to make; none can be on record for it after it has exited. -/
def InstrPc.CallsLeft (action : Bool) : InstrPc → List InstrF → Prop
  | .notCreated, fs | .created, fs | .allowSignal, fs | .aggregating, fs =>
    TableCalls (nopLoops action) fs
  | .atLoop l p rest, fs =>
    ∃ fs₁ fs₂, fs = fs₁ ++ fs₂ ∧ p.CallsLeft l fs₁ ∧ TableCalls rest fs₂
  | .setFinish, fs | .doExit, fs => fs = []
  | .exited, _ => False

theorem nextLoop_callsLeft {action : Bool} {ls : List TimingLoop} {fs : List InstrF}
    (h : (nextLoop ls).CallsLeft action fs) : TableCalls ls fs := by
  cases ls with
  | nil => exact h
  | cons l ls =>
    obtain ⟨fs₁, fs₂, rfl, h₁, h₂⟩ := h
    refine ⟨fs₁, fs₂, rfl, ?_, h₂⟩
    rw [entry] at h₁
    unfold LoopCalls
    cases hg : l.guard <;> rw [hg] at h₁
    case plain | suspendInterrupts => exact Or.inl h₁
    case bootFeature | kmalloc => exact h₁.imp_right fun h => ⟨rfl, h⟩

theorem afterBody_callsLeft {action : Bool} {l : TimingLoop} {ls : List TimingLoop}
    {fs : List InstrF} (h : (afterBody l ls).CallsLeft action fs) : TableCalls ls fs := by
  unfold afterBody at h
  split at h
  · obtain ⟨fs₁, fs₂, rfl, rfl, h₂⟩ := h
    exact h₂
  · exact nextLoop_callsLeft h

theorem exists_tableCalls (ls : List TimingLoop) : ∃ fs, TableCalls ls fs := by
  induction ls with
  | nil => exact ⟨[], rfl⟩
  | cons l ls ih =>
    obtain ⟨fs, h⟩ := ih
    exact ⟨_, _, fs, rfl, Or.inl rfl, h⟩

/-! ## The interrupt flag -/

/-- Whether interrupts are enabled at a place inside a loop. -/
def LoopPc.irqs (l : TimingLoop) : LoopPc → Bool
  | .irqSave | .irqEnable => true
  | .irqDisable | .irqRestore => false
  | _ => l.guard != .suspendInterrupts

def InstrPc.irqs : InstrPc → Bool
  | .atLoop l p _ => p.irqs l
  | _ => true

/-- The statements of `SUSPEND_INTERRUPTS`. -/
def LoopPc.suspends : LoopPc → Bool
  | .irqSave | .irqDisable | .irqRestore | .irqEnable => true
  | _ => false

/-- Where they stand, and where not. -/
def InstrPc.Suspends : InstrPc → Prop
  | .atLoop l (.bootCpuHas _) _ => l.guard ≠ .suspendInterrupts
  | .atLoop l p _ => p.suspends = true → l.guard = .suspendInterrupts
  | _ => True

/-- The loop a thread is in, and those to come. -/
def InstrPc.loops : InstrPc → List TimingLoop
  | .atLoop l _ rest => l :: rest
  | _ => []

/-- Interrupts are suspended for the functions that ask for it. -/
def Suspending (ls : List TimingLoop) : Prop :=
  ∀ l ∈ ls, l.guard = .suspendInterrupts ↔ l.functionCall.suspended = true

theorem suspending_nopLoops (action : Bool) : Suspending (nopLoops action) := by
  have hall : ∀ l ∈ nopLoops action,
      (l.guard == .suspendInterrupts) = l.functionCall.suspended := by
    cases action <;> decide
  intro l hl
  rw [← hall l hl, beq_iff_eq]

/-- **The invariant of the interrupt flag**: it is as the place says, and what
`local_irq_restore` will restore is that interrupts are enabled. -/
structure Bracketed (t : InstrThread) : Prop where
  irqs : t.irqs = t.pc.irqs
  flags : t.pc.irqs = false → t.flags = true
  place : t.pc.Suspends
  table : Suspending t.pc.loops

theorem bracketed_nextLoop {t : InstrThread} {ls : List TimingLoop} (hpc : t.pc = nextLoop ls)
    (hirqs : t.irqs = true) (hls : Suspending ls) : Bracketed t := by
  cases ls with
  | nil =>
    have hset : t.pc = .setFinish := hpc
    refine ⟨?_, ?_, ?_, ?_⟩ <;> rw [hset]
    · exact hirqs
    · intro h
      cases h
    · trivial
    · intro l hl
      cases hl
  | cons l ls =>
    have hon : t.pc.irqs = true := by
      rw [hpc, nextLoop, entry]
      cases hg : l.guard <;> simp [InstrPc.irqs, LoopPc.irqs, hg]
    refine ⟨hirqs.trans hon.symm, fun h => ?_, ?_, ?_⟩
    · rw [hon] at h
      cases h
    · rw [hpc, nextLoop, entry]
      cases hg : l.guard <;> simp [InstrPc.Suspends, LoopPc.suspends, hg]
    · rw [hpc]
      exact hls

/-- The function that the next statement of a thread calls. -/
def InstrPc.calls : InstrPc → List InstrF
  | .atLoop l (.forCall (_ + 1)) _ => [l.functionCall]
  | _ => []

section Statement
variable {i : ι} {g g' : Globals ι} {env : Env} {t t' : InstrThread} {l : TimingLoop}
  {p : LoopPc} {rest : List TimingLoop} {action : Bool} {es : List (Event ι)} {fs : List InstrF}

omit [DecidableEq ι] in
/-- A statement of a timing macro takes its call off those that are left. -/
theorem nopTimingLoop_left (hcpu : 2 ≤ env.numOnlineCpus)
    (h : (nopTimingLoop i g env t l p rest).2.2.pc.CallsLeft action fs) :
    (InstrPc.atLoop l p rest).CallsLeft action ((InstrPc.atLoop l p rest).calls ++ fs) := by
  have stay : ∀ {p' : LoopPc}, (InstrPc.atLoop l p' rest).CallsLeft action fs →
      (∀ gs, p'.CallsLeft l gs → p.CallsLeft l gs) →
      (InstrPc.atLoop l p rest).CallsLeft action fs :=
    fun ⟨gs, gs', he, hgs, hgs'⟩ hp => ⟨gs, gs', he, hp gs hgs, hgs'⟩
  have leave : p.CallsLeft l [] → TableCalls rest fs →
      (InstrPc.atLoop l p rest).CallsLeft action fs :=
    fun hp hfs => ⟨[], fs, rfl, hp, hfs⟩
  unfold nopTimingLoop at h
  cases p
  case irqSave | irqDisable | setReset | label | irqRestore => exact stay h fun _ => id
  case setPrint => exact stay h fun _ => id
  case bootCpuHas f =>
    cases hb : env.bootCpuHas f <;>
      simp only [hb, Bool.false_eq_true, if_false, if_true] at h
    · exact leave (Or.inr rfl) (nextLoop_callsLeft h)
    · exact stay h fun _ => Or.inl
  case testVmemAligned =>
    by_cases hv : env.vmemAligned ≠ 0
    · simp only [if_pos hv] at h
      exact stay h fun _ => Or.inl
    · simp only [if_neg hv] at h
      exact stay h fun _ => Or.inr
  case testOnline =>
    simp only [if_pos hcpu] at h
    exact stay h fun _ => id
  case zero => exact leave rfl (afterBody_callsLeft h)
  case spinReset => cases hr : g.resetCount <;> rw [hr] at h <;> exact stay h fun _ => id
  case spinResetStop => cases hs : t.shouldStop <;> rw [hs] at h <;> exact stay h fun _ => id
  case forCall left =>
    cases left with
    | zero => exact stay h fun _ => id
    | succ left =>
      obtain ⟨gs, gs', rfl, rfl, hgs'⟩ := h
      exact ⟨_, gs', (List.append_assoc [l.functionCall] _ _).symm, List.replicate_succ.symm, hgs'⟩
  case spinPrint =>
    cases hr : g.printCount <;> rw [hr] at h
    · exact leave rfl (afterBody_callsLeft h)
    · exact stay h fun _ => id
  case spinPrintStop =>
    cases hs : t.shouldStop <;> rw [hs] at h
    · exact stay h fun _ => id
    · exact leave rfl (afterBody_callsLeft h)
  case irqEnable => exact leave rfl (nextLoop_callsLeft h)

omit [DecidableEq ι] in
/-- A statement of a timing macro keeps the interrupt flag as the place says. -/
theorem nopTimingLoop_bracketed (h : Bracketed t) (hpc : t.pc = .atLoop l p rest) :
    Bracketed (nopTimingLoop i g env t l p rest).2.2 := by
  obtain ⟨hirqs, hflags, hplace, htable⟩ := h
  rw [hpc] at hirqs hflags hplace htable
  obtain ⟨-, hrest⟩ := List.forall_mem_cons.mp htable
  have stay : ∀ p' : LoopPc, p'.irqs l = p.irqs l → (InstrPc.atLoop l p' rest).Suspends →
      Bracketed { t with pc := .atLoop l p' rest } := fun p' hp hs =>
    ⟨hirqs.trans hp.symm, fun hoff => hflags (hp.symm.trans hoff), hs, htable⟩
  have leave : p.irqs l = (l.guard != .suspendInterrupts) →
      Bracketed { t with pc := afterBody l rest } := by
    intro hp
    unfold afterBody
    split
    case isTrue hg =>
      have hoff : p.irqs l = false := by simp [hp, hg]
      exact ⟨hirqs.trans hoff, fun _ => hflags hoff, fun _ => hg, htable⟩
    case isFalse hg =>
      have hon : p.irqs l = true := by simp [hp, hg]
      exact bracketed_nextLoop rfl (hirqs.trans hon) hrest
  unfold nopTimingLoop
  cases p
  case irqSave =>
    have hg : l.guard = .suspendInterrupts := hplace rfl
    exact ⟨rfl, fun _ => hirqs, fun _ => hg, htable⟩
  case irqDisable =>
    have hg : l.guard = .suspendInterrupts := hplace rfl
    refine ⟨?_, fun _ => hflags rfl, nofun, htable⟩
    show false = (l.guard != .suspendInterrupts)
    rw [hg]
    rfl
  case bootCpuHas f =>
    have hg : l.guard ≠ .suspendInterrupts := hplace
    have hon : t.irqs = true := hirqs.trans (by simpa [InstrPc.irqs, LoopPc.irqs] using hg)
    cases hb : env.bootCpuHas f <;> simp only [hb, Bool.false_eq_true, if_false, if_true]
    · exact bracketed_nextLoop rfl hon hrest
    · exact stay _ rfl nofun
  case testVmemAligned =>
    by_cases hv : env.vmemAligned ≠ 0
    · simp only [if_pos hv]
      exact stay _ rfl nofun
    · simp only [if_neg hv]
      exact stay _ rfl nofun
  case testOnline =>
    by_cases hcpu : 2 ≤ env.numOnlineCpus
    · simp only [if_pos hcpu]
      exact stay _ rfl nofun
    · simp only [if_neg hcpu]
      exact stay _ rfl nofun
  case zero => exact leave rfl
  case setReset | label | setPrint => exact stay _ rfl nofun
  case spinReset => cases g.resetCount <;> exact stay _ rfl nofun
  case spinResetStop =>
    by_cases hs : t.shouldStop = true
    · simp only [if_pos hs]
      exact stay _ rfl nofun
    · simp only [if_neg hs]
      exact stay _ rfl nofun
  case forCall left => cases left <;> exact stay _ rfl nofun
  case spinPrint =>
    cases g.printCount
    · exact leave rfl
    · exact stay _ rfl nofun
  case spinPrintStop =>
    by_cases hs : t.shouldStop = true
    · simp only [if_pos hs]
      exact leave rfl
    · simp only [if_neg hs]
      exact stay _ rfl nofun
  case irqRestore =>
    have hg : l.guard = .suspendInterrupts := hplace rfl
    exact ⟨hflags rfl, nofun, fun _ => hg, htable⟩
  case irqEnable => exact bracketed_nextLoop rfl rfl hrest

omit [DecidableEq ι] in
theorem nopTimingLoop_finishes_not (j : ι) :
    .finish j ∉ (nopTimingLoop i g env t l p rest).1 := by
  unfold nopTimingLoop
  cases p
  case spinReset => cases g.resetCount <;> simp
  case spinResetStop => cases t.shouldStop <;> simp
  case forCall left => cases left <;> simp
  case spinPrint => cases g.printCount <;> simp
  case spinPrintStop => cases t.shouldStop <;> simp
  all_goals simp

/-- Outside the table, interrupts are enabled. -/
theorem Bracketed.outside (h : Bracketed t) (hpc : t.pc.irqs = true) (hirqs : t'.irqs = t.irqs)
    (hpc' : t'.pc = .allowSignal ∨ t'.pc = .aggregating ∨ t'.pc = .doExit ∨ t'.pc = .exited) :
    Bracketed t' := by
  have hon : t'.irqs = true := hirqs.trans (h.irqs.trans hpc)
  constructor <;> rcases hpc' with hpc' | hpc' | hpc' | hpc' <;>
    simp [hpc', hon, InstrPc.irqs, InstrPc.Suspends, InstrPc.loops, Suspending]

/-- What a statement of `instr_f` or `buffer_flush_instr_f` does to the calls that are left and to
the interrupt flag. -/
structure TableStep (i : ι) (t : InstrThread) (es : List (Event ι)) (t' : InstrThread) :
    Prop where
  action : t'.action = t.action
  created : t.pc ≠ .notCreated ∧ t'.pc ≠ .notCreated
  left : ∀ fs, t'.pc.CallsLeft t.action fs → t.pc.CallsLeft t.action (t.pc.calls ++ fs)
  bracketed : Bracketed t → Bracketed t'
  finish : ∀ j, .finish j ∈ es → j = i ∧ t.pc = .setFinish ∧ t'.pc = .doExit
  done : t.Done → t.pc = .doExit ∧ t'.pc = .exited

omit [DecidableEq ι] in
theorem instrF_table (hcpu : 2 ≤ env.numOnlineCpus)
    (h : instrF i g env t = some (es, g', t')) : TableStep i t es t' := by
  have hstep := instrF_step h
  unfold instrF at h
  split at h
  case isFalse => cases h
  case isTrue =>
    cases hpc : t.pc <;> simp only [hpc] at h
    case notCreated | exited => cases h
    case atLoop l p rest =>
      have hleft := @nopTimingLoop_left _ i g env t l p rest t.action
      have hirqs := @nopTimingLoop_bracketed _ i g env t l p rest
      have hfinish := @nopTimingLoop_finishes_not _ i g env t l p rest
      rw [Option.some.inj h] at hleft hirqs hfinish
      refine ⟨hstep.action, ⟨hstep.running.1, hstep.created⟩, fun fs => ?_, fun hb => hirqs hb hpc,
        fun j hj => absurd hj (hfinish j), fun hd => ?_⟩
      · rw [hpc]
        exact hleft hcpu
      · rcases hd with hd | hd <;> rw [hpc] at hd <;> cases hd
    case created =>
      have hon : t.pc.irqs = true := by rw [hpc]; rfl
      have hrun : ¬ t.Done := by simp [InstrThread.Done, hpc]
      by_cases hs : t.shouldStop = true
      · simp only [if_pos hs] at h
        cases h
        exact ⟨rfl, ⟨hstep.running.1, hstep.created⟩, fun fs => False.elim,
          fun hb => hb.outside hon rfl (by simp), by simp, fun hd => absurd hd hrun⟩
      · simp only [if_neg hs] at h
        cases h
        refine ⟨rfl, ⟨hstep.running.1, hstep.created⟩, fun fs hfs => ?_,
          fun hb => hb.outside hon rfl (by simp), by simp, fun hd => absurd hd hrun⟩
        rw [hpc]
        exact hfs
    case allowSignal =>
      have hon : t.pc.irqs = true := by rw [hpc]; rfl
      cases h
      refine ⟨rfl, ⟨hstep.running.1, hstep.created⟩, fun fs hfs => ?_,
        fun hb => hb.outside hon rfl (by simp), by simp, by simp [InstrThread.Done, hpc]⟩
      rw [hpc]
      exact hfs
    case aggregating =>
      have hon : t.pc.irqs = true := by rw [hpc]; rfl
      cases h
      refine ⟨rfl, ⟨hstep.running.1, hstep.created⟩, fun fs hfs => ?_, fun hb => ?_, by simp,
        by simp [InstrThread.Done, hpc]⟩
      · rw [hpc]
        exact nextLoop_callsLeft hfs
      · exact bracketed_nextLoop rfl (hb.irqs.trans hon) (suspending_nopLoops t.action)
    case setFinish =>
      have hon : t.pc.irqs = true := by rw [hpc]; rfl
      cases h
      refine ⟨rfl, ⟨hstep.running.1, hstep.created⟩, fun fs hfs => ?_,
        fun hb => hb.outside hon rfl (by simp), fun j hj => ?_, by simp [InstrThread.Done, hpc]⟩
      · rw [hpc]
        exact hfs
      · cases List.mem_singleton.mp hj
        exact ⟨rfl, hpc, rfl⟩
    case doExit =>
      have hon : t.pc.irqs = true := by rw [hpc]; rfl
      cases h
      exact ⟨rfl, ⟨hstep.running.1, hstep.created⟩, fun fs => False.elim,
        fun hb => hb.outside hon rfl (by simp), by simp, fun _ => ⟨hpc, rfl⟩⟩

end Statement

/-! ## Runs -/

/-- Only the scheduler's view of the thread has changed. -/
structure SamePlace (t t' : InstrThread) : Prop where
  pc : t'.pc = t.pc
  action : t'.action = t.action
  irqs : t'.irqs = t.irqs
  flags : t'.flags = t.flags

theorem SamePlace.rfl {t : InstrThread} : SamePlace t t := ⟨.refl _, .refl _, .refl _, .refl _⟩

theorem Bracketed.same {t t' : InstrThread} (h : Bracketed t) (hs : SamePlace t t') :
    Bracketed t' := by
  obtain ⟨hirqs, hflags, hplace, htable⟩ := h
  obtain ⟨hpc, -, hirqs', hflags'⟩ := hs
  rw [← hpc] at hirqs hflags hplace htable
  exact ⟨hirqs'.trans hirqs, fun h => hflags'.trans (hflags h), hplace, htable⟩

/-- What a statement of `nop_timing_start` does to the INSTR threads. -/
structure CreatingStep (i : ι) (s s' : State ι) : Prop where
  instr : ∀ j, SamePlace (s.instr j) (s'.instr j) ∨
    j = i ∧ (s.call i).pc = .createInstr ∧ ∃ action, s'.instr j = .fresh action
  call : ∀ j, j ≠ i → s'.call j = s.call j
  early : (s'.call i).pc.stage ≤ 5 → (s.call i).pc.stage ≤ 5 ∧ (s.call i).pc ≠ .createInstr

theorem nopTimingStart_creating {s s' : State ι} {i : ι} {err : Option Nat} {es : List (Event ι)}
    (h : nopTimingStart s i err = some (es, s')) : CreatingStep i s s' := by
  have hupd : ∀ (j k : ι) (t : InstrThread), SamePlace (s.instr j) t →
      SamePlace (s.instr k) (Function.update s.instr j t k) := by
    intro j k t ht
    by_cases hk : k = j
    · subst hk
      rw [Function.update_self]
      exact ht
    · rw [Function.update_of_ne hk]
      exact .rfl
  have hcall := (nopTimingStart_frame h).call
  unfold nopTimingStart at h
  cases hpc : (s.call i).pc <;> simp only [hpc] at h
  case notCalled | returned | faulted => cases h
  case createInstr =>
    split at h <;> cases h
    · refine ⟨fun k => ?_, hcall, by simp [CallPc.stage]⟩
      by_cases hk : k = i
      · subst hk
        exact Or.inr ⟨rfl, hpc, _, Function.update_self ..⟩
      · refine Or.inl ?_
        show SamePlace (s.instr k) (Function.update s.instr i _ k)
        rw [Function.update_of_ne hk]
        exact .rfl
    · exact ⟨fun k => Or.inl .rfl, hcall, by simp [CallPc.stage]⟩
  case wakeInstr | stopInstr =>
    split at h <;> cases h
    · exact ⟨fun k => Or.inl (hupd _ k _ ⟨rfl, rfl, rfl, rfl⟩), hcall, by simp [CallPc.stage]⟩
    all_goals exact ⟨fun k => Or.inl .rfl, hcall, by simp [CallPc.stage]⟩
  case clearReset | clearPrint | clearFinish | sleep =>
    cases h
    exact ⟨fun k => Or.inl .rfl, hcall, by simp [hpc, CallPc.stage]⟩
  case testNop | testInstr | poll =>
    cases h
    refine ⟨fun k => Or.inl .rfl, hcall, ?_⟩
    rw [goto_call_self]
    split <;> simp [CallPc.stage]
  all_goals
    split at h <;> cases h
    all_goals exact ⟨fun k => Or.inl .rfl, hcall, by simp [hpc, CallPc.stage]⟩

/-- The record of one thread, seen from where the thread is. -/
structure Recorded (i : ι) (evs : List (Event ι ⊕ ThreadCall ι)) (t : InstrThread) : Prop where
  bracketed : Bracketed t
  suspended : ∀ x ∈ callsIn evs, x.thread = i → x.irqs = !x.call.functionCall.suspended
  uncreated : t.pc = .notCreated → callsOf i evs = []
  begins : ∃ fs, TableCalls (nopLoops t.action) (functions (callsOf i evs) ++ fs)
  left : ∀ fs, t.pc.CallsLeft t.action fs →
    TableCalls (nopLoops t.action) (functions (callsOf i evs) ++ fs)
  finished : .inl (.finish i) ∈ evs →
    t.Done ∧ TableCalls (nopLoops t.action) (functions (callsOf i evs))

section Record
variable {i : ι} {t t' : InstrThread} {evs : List (Event ι ⊕ ThreadCall ι)} {es : List (Event ι)}
  {cs : List (ThreadCall ι)}

omit [DecidableEq ι] in
theorem exists_callsLeft {action : Bool} {p : InstrPc} (h : p.calls ≠ []) :
    ∃ fs, p.CallsLeft action (p.calls ++ fs) := by
  unfold InstrPc.calls at h ⊢
  split at h
  case h_1 l left rest =>
    obtain ⟨fs, hfs⟩ := exists_tableCalls rest
    exact ⟨List.replicate left l.functionCall ++ fs, _, fs, (List.append_assoc ..).symm,
      List.replicate_succ.symm, hfs⟩
  case h_2 => exact absurd rfl h

/-- A step of the thread. -/
theorem Recorded.step (h : Recorded i evs t) (hs : TableStep i t es t')
    (hfun : functions (cs.map (·.call)) = t.pc.calls)
    (hcs : ∀ x ∈ cs, x.thread = i ∧ x.irqs = !x.call.functionCall.suspended) :
    Recorded i (evs ++ (es.map .inl ++ cs.map .inr)) t' := by
  obtain ⟨hbracketed, hsuspended, huncreated, hbegins, hleft, hfinished⟩ := h
  have hcalls : callsOf i (es.map .inl ++ cs.map .inr) = cs.map (·.call) := by
    rw [callsOf, callsIn_recorded, List.filter_eq_self.mpr]
    intro x hx
    exact decide_eq_true (hcs x hx).1
  have hfunctions : functions (callsOf i (evs ++ (es.map .inl ++ cs.map .inr))) =
      functions (callsOf i evs) ++ t.pc.calls := by
    rw [callsOf_append, hcalls, ← hfun]
    exact List.map_append
  refine ⟨hs.bracketed hbracketed, fun x hx => ?_, fun hn => absurd hn hs.created.2, ?_,
    fun fs hfs => ?_, fun hin => ?_⟩
  · rw [callsIn_append, callsIn_recorded] at hx
    rcases List.mem_append.mp hx with hx | hx
    · exact hsuspended x hx
    · exact fun _ => (hcs x hx).2
  · rw [hfunctions, hs.action]
    by_cases hnone : t.pc.calls = []
    · rw [hnone, List.append_nil]
      exact hbegins
    · obtain ⟨fs, hfs⟩ := exists_callsLeft hnone
      refine ⟨fs, ?_⟩
      rw [List.append_assoc]
      exact hleft _ hfs
  · rw [hs.action] at hfs ⊢
    rw [hfunctions, List.append_assoc]
    exact hleft _ (hs.left fs hfs)
  · rw [hfunctions, hs.action]
    have hmem : Sum.inl (Event.finish i) ∈ evs ∨ .finish i ∈ es := by simpa using hin
    rcases hmem with hmem | hmem
    · obtain ⟨hdone, htable⟩ := hfinished hmem
      obtain ⟨hpc, hpc'⟩ := hs.done hdone
      have hnone : t.pc.calls = [] := by rw [hpc]; rfl
      rw [hnone, List.append_nil]
      exact ⟨Or.inr hpc', htable⟩
    · obtain ⟨-, hpc, hpc'⟩ := hs.finish i hmem
      have hnone : t.pc.calls = [] := by rw [hpc]; rfl
      rw [hnone]
      refine ⟨Or.inl hpc', hleft [] ?_⟩
      rw [hpc]
      rfl

/-- A step of somebody else. -/
theorem Recorded.quiet (h : Recorded i evs t) (hs : SamePlace t t')
    (hcs : ∀ x ∈ cs, x.thread ≠ i) (hes : .finish i ∉ es) :
    Recorded i (evs ++ (es.map .inl ++ cs.map .inr)) t' := by
  obtain ⟨hbracketed, hsuspended, huncreated, hbegins, hleft, hfinished⟩ := h
  have hnone : callsOf i (es.map .inl ++ cs.map .inr) = [] := by
    rw [callsOf, callsIn_recorded, List.filter_eq_nil_iff.mpr]
    · rfl
    · intro x hx
      simpa using hcs x hx
  have hcalls : callsOf i (evs ++ (es.map .inl ++ cs.map .inr)) = callsOf i evs := by
    rw [callsOf_append, hnone, List.append_nil]
  obtain ⟨hpc, haction, -, -⟩ := id hs
  refine ⟨hbracketed.same hs, fun x hx hxi => ?_, ?_, ?_, ?_, fun hin => ?_⟩
  · rw [callsIn_append, callsIn_recorded] at hx
    rcases List.mem_append.mp hx with hx | hx
    · exact hsuspended x hx hxi
    · exact absurd hxi (hcs x hx)
  · rwa [hcalls, hpc]
  · rwa [hcalls, haction]
  · rwa [hcalls, hpc, haction]
  · rw [hcalls, haction, InstrThread.Done, hpc]
    refine hfinished ?_
    simpa [hes] using hin

/-- `kthread_create` of the thread. -/
theorem Recorded.create (h : Recorded i evs t) (hpc : t.pc = .notCreated) (action : Bool) :
    Recorded i evs (.fresh action) := by
  have hnone : callsOf i evs = [] := h.uncreated hpc
  refine ⟨⟨rfl, nofun, trivial, nofun⟩, h.suspended, nofun, ?_, fun fs hfs => ?_, fun hin => ?_⟩
  · rw [hnone]
    exact exists_tableCalls (nopLoops action)
  · rw [hnone]
    exact hfs
  · rcases (h.finished hin).1 with hd | hd <;> rw [hpc] at hd <;> cases hd

end Record

/-- The record of every thread, and the threads that cannot have been created yet. -/
structure AllRecorded (evs : List (Event ι ⊕ ThreadCall ι)) (s : State ι) : Prop where
  thread : ∀ i, Recorded i evs (s.instr i)
  early : ∀ i, (s.call i).pc.stage ≤ 5 → (s.instr i).pc = .notCreated

theorem allRecorded_initial : AllRecorded [] (initial : State ι) where
  thread _ := {
    bracketed := ⟨rfl, nofun, trivial, nofun⟩
    suspended := nofun
    uncreated := fun _ => rfl
    begins := exists_tableCalls _
    left := fun _ => id
    finished := nofun }
  early _ _ := rfl

omit [DecidableEq ι] in
theorem nopF_finishes_not {i j : ι} {g g' : Globals ι} {pending : Option Bool} {n n' : NopThread}
    {es : List (Event ι)} (h : nopF i g pending n = some (es, g', n')) : .finish j ∉ es := by
  unfold nopF at h
  split at h
  case isFalse => cases h
  case isTrue =>
    cases hpc : n.pc <;> simp only [hpc] at h
    case notCreated | exited | faulted => cases h
    case testSignal => rcases pending with _ | _ | _ <;> cases h <;> simp
    all_goals
      cases h
      simp

omit [DecidableEq ι] in
/-- What is put on record of a statement. -/
theorem callMade_instr {s : State ι} {i : ι} (env : Env) (h : Bracketed (s.instr i)) :
    functions ((callMade s (.instr i env)).map (·.call)) = (s.instr i).pc.calls ∧
      ∀ x ∈ callMade s (.instr i env),
        x.thread = i ∧ x.irqs = !x.call.functionCall.suspended := by
  simp only [callMade, InstrPc.calls]
  split
  case h_1 l left rest hpc =>
    refine ⟨rfl, fun x hx => ?_⟩
    obtain rfl := List.mem_singleton.mp hx
    refine ⟨rfl, h.irqs.trans ?_⟩
    have htable := h.table l (by rw [hpc]; exact List.mem_cons_self)
    rw [hpc]
    show (l.guard != .suspendInterrupts) = _
    rw [Bool.eq_iff_iff]
    simpa using not_congr htable
  case h_2 => exact ⟨rfl, nofun⟩

/-- A step that moves no INSTR thread. -/
theorem AllRecorded.quiet {s s' : State ι} {evs : List (Event ι ⊕ ThreadCall ι)}
    {es : List (Event ι)} (h : AllRecorded evs s) (hinstr : s'.instr = s.instr)
    (hcall : ∀ i, (s'.call i).pc.stage ≤ 5 → (s.call i).pc.stage ≤ 5)
    (hes : ∀ i, .finish i ∉ es) : AllRecorded (evs ++ (es.map .inl ++ [].map .inr)) s' where
  thread i := (h.thread i).quiet (by rw [hinstr]; exact .rfl) nofun (hes i)
  early i hi := by
    rw [hinstr]
    exact h.early i (hcall i hi)

/-- **Every step keeps the record**, on at least two CPUs. -/
theorem allRecorded_step {s s' : State ι} {a : Action ι} {evs es : List (Event ι ⊕ ThreadCall ι)}
    (h : AllRecorded evs s) (hcpu : TwoCpus s a) (hstep : callingSystem.step s a = some (es, s')) :
    AllRecorded (evs ++ es) s' := by
  obtain ⟨es₀, hs, rfl⟩ := System.recording_step hstep
  cases a with
  | begin j action =>
    obtain ⟨hpc, rfl, rfl⟩ := begin_eq hs
    refine h.quiet rfl (fun i hi => ?_) (by simp)
    by_cases hij : i = j
    · subst hij
      rw [hpc]
      exact Nat.zero_le 5
    · simpa [Function.update_of_ne hij] using hi
  | call j err =>
    have hcreating := nopTimingStart_creating hs
    have hes : ∀ i, Event.finish i ∉ es₀ := fun i hmem => by
      have hin : Event.finish i ∈ threadEvents es₀ := List.mem_filter.mpr ⟨hmem, rfl⟩
      rw [call_events hs] at hin
      cases hin
    refine ⟨fun i => ?_, fun i hi => ?_⟩
    · have hquiet : ∀ t, SamePlace (s.instr i) t →
          Recorded i (evs ++ (es₀.map .inl ++ [].map .inr)) t :=
        fun t ht => (h.thread i).quiet ht nofun (hes i)
      rcases hcreating.instr i with hsame | ⟨rfl, hpc, action, hfresh⟩
      · exact hquiet _ hsame
      · have hnone : (s.instr i).pc = .notCreated := h.early i (by simp [hpc, CallPc.stage])
        rw [hfresh]
        exact (hquiet _ .rfl).create hnone action
    · have hbefore : (s.call i).pc.stage ≤ 5 ∧ (i = j → (s.call i).pc ≠ .createInstr) := by
        by_cases hij : i = j
        · subst hij
          exact (hcreating.early hi).imp_right fun h _ => h
        · rw [hcreating.call i hij] at hi
          exact ⟨hi, fun h => absurd h hij⟩
      rcases hcreating.instr i with hsame | ⟨hij, hpc, -⟩
      · exact hsame.pc.trans (h.early i hbefore.1)
      · subst hij
        exact absurd hpc (hbefore.2 rfl)
  | nop j =>
    obtain ⟨⟨es', g', n'⟩, hr, he⟩ := Option.map_eq_some_iff.mp hs
    obtain ⟨rfl, rfl⟩ := Prod.mk.inj he
    exact h.quiet rfl (fun _ => id) fun i => nopF_finishes_not hr
  | instr j env =>
    obtain ⟨⟨es', g', t'⟩, hr, he⟩ := Option.map_eq_some_iff.mp hs
    obtain ⟨rfl, rfl⟩ := Prod.mk.inj he
    have htable := instrF_table hcpu hr
    refine ⟨fun i => ?_, fun i hi => ?_⟩
    · by_cases hij : i = j
      · subst hij
        simp only [setGlobals_instr, setInstr_instr_self]
        obtain ⟨hfun, hcs⟩ := callMade_instr env (h.thread i).bracketed
        exact (h.thread i).step htable hfun hcs
      · simp only [setGlobals_instr, setInstr_instr_of_ne _ _ hij]
        obtain ⟨-, hcs⟩ := callMade_instr env (h.thread j).bracketed
        refine (h.thread i).quiet .rfl (fun x hx hxi => hij ?_) fun hmem =>
          hij (htable.finish i hmem).1
        exact hxi.symm.trans (hcs x hx).1
    · by_cases hij : i = j
      · subst hij
        exact absurd (h.early i hi) htable.created.1
      · simp only [setGlobals_instr, setInstr_instr_of_ne _ _ hij]
        exact h.early i hi
  | sigkill j =>
    obtain ⟨rfl, rfl⟩ := Prod.mk.inj (Option.some.inj hs)
    exact h.quiet rfl (fun _ => id) (by simp)

theorem allRecorded_run {evs : List (Event ι ⊕ ThreadCall ι)} {s : State ι}
    (h : callingSystem.Run TwoCpus initial evs s) : AllRecorded evs s :=
  h.invariant allRecorded_initial fun _ _ _ _ _ hI hcpu hs => allRecorded_step hI hcpu hs

/-- **The calls follow the table**: in every run on at least two CPUs, overlapping calls of
`nop_timing_start`, failures of `kthread_create` and SIGKILLs included, the INSTR threads call a
function with interrupts suspended if and only if it moves to or from a control or debug register,
and interrupts are enabled outside the table; and what a thread has called is the beginning of
what its table asks for, all of it once it has set `finish`. -/
theorem calls_follow {evs : List (Event ι ⊕ ThreadCall ι)} {s : State ι}
    (h : callingSystem.Run TwoCpus initial evs s) :
    (∀ x ∈ callsIn evs, x.irqs = !x.call.functionCall.suspended) ∧
    ∀ i, (s.instr i).irqs = (s.instr i).pc.irqs ∧
      (∃ fs, TableCalls (nopLoops (s.instr i).action) (functions (callsOf i evs) ++ fs)) ∧
      (.inl (.finish i) ∈ evs →
        TableCalls (nopLoops (s.instr i).action) (functions (callsOf i evs))) := by
  have hall := allRecorded_run h
  exact ⟨fun x hx => (hall.thread x.thread).suspended x hx rfl,
    fun i => ⟨(hall.thread i).bracketed.irqs, (hall.thread i).begins,
      fun hin => ((hall.thread i).finished hin).2⟩⟩

set_option maxRecDepth 4000 in
/-- Two calls overlap, and the threads of the second come to their end. -/
theorem calls_follow_overlapping : ∃ (evs : List (Event Bool ⊕ ThreadCall Bool))
    (s : State Bool), callingSystem.Run TwoCpus initial evs s ∧
      .inl (.stopNop false true) ∈ evs ∧ .inl (.finish true) ∈ evs ∧
      (s.instr true).irqs = (s.instr true).pc.irqs ∧
      TableCalls flushLoops (functions (callsOf true evs)) := by
  obtain ⟨evs, s, hrun, hfinish, hstop, haction⟩ := System.Run.exists_of_exec system TwoCpus
    initial overlappingCalls (fun evs s => .finish true ∈ evs ∧ .stopNop false true ∈ evs ∧
      (s.instr true).action = false) (by decide +kernel)
  obtain ⟨recorded, hrecorded, rfl⟩ := hrun.exists_recording callMade
  have hset := System.mem_left.mp hfinish
  obtain ⟨hirqs, -, hcalls⟩ := (calls_follow hrecorded).2 true
  rw [haction] at hcalls
  exact ⟨recorded, s, hrecorded, System.mem_left.mp hstop, hset, hirqs, hcalls hset⟩

end NopTimer

end EcrToolkit
