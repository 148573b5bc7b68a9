import EcrToolkit.NopIsolation

/-!
# How the two threads end

A thread that calls `do_exit` before anyone called `kthread_stop` on it may be
gone when `kthread_stop` is called, and a NOP thread that has left its loop
answers no request.  `nop_timing_start` does nothing about either: it stops both
threads after it has seen `finish`, whatever they have done in the meantime, and
the INSTR thread looks at no signal while it waits for the NOP thread.

`stopsRunning_of_exitsInStop` gives the schedules on which `kthread_stop` finds
its thread running, `not_stuck_of_answered` those on which no handshake gets
stuck.  Each comes with a schedule of one call that goes wrong; and a handshake
that is stuck stays stuck (`Stuck.step`).
-/
namespace EcrToolkit.NopTimer

open Transitions

variable {ι : Type}

/-! ## `kthread_stop` and threads that have exited -/

/-- A thread executes its `do_exit` only while its call waits for it in
`kthread_stop`. -/
def ExitsInStop (s : State ι) : Action ι → Prop
  | .nop i => (s.nop i).pc = .doExit → (s.call i).pc = .joinNop i
  | .instr i _ => (s.instr i).pc = .doExit → (s.call i).pc = .joinInstr i
  | _ => True

/-- `kthread_stop` is called only on threads that have not exited. -/
def StopsRunning (s : State ι) (es : List (Event ι)) : Prop :=
  ∀ i j, (Event.stopNop i j ∈ es → (s.nop j).pc ≠ .exited) ∧
    (Event.stopInstr i j ∈ es → (s.instr j).pc ≠ .exited)

/-- A thread that has exited was stopped before. -/
structure ExitsStopped (s : State ι) : Prop where
  nop : ∀ i, (s.nop i).pc = .exited → 14 ≤ (s.call i).pc.stage
  instr : ∀ i, (s.instr i).pc = .exited → 16 ≤ (s.call i).pc.stage

instance [DecidableEq ι] (s : State ι) : (a : Action ι) → Decidable (ExitsInStop s a)
  | .nop i => inferInstanceAs (Decidable ((s.nop i).pc = .doExit → (s.call i).pc = .joinNop i))
  | .instr i _ =>
    inferInstanceAs (Decidable ((s.instr i).pc = .doExit → (s.call i).pc = .joinInstr i))
  | .begin _ _ | .call _ _ | .sigkill _ => isTrue trivial

theorem exitsStopped_initial : ExitsStopped (initial : State ι) where
  nop i he := by simp [initial, NopThread.absent] at he
  instr i he := by simp [initial, InstrThread.absent] at he

section Lifetime
variable [DecidableEq ι] {s s' : State ι} {a : Action ι} {es : List (Event ι)}

/-- No step takes a call back past a `kthread_stop`. -/
theorem LedgerStep.stage_le (h : LedgerStep s es s') (i : ι) :
    (14 ≤ (s.call i).pc.stage → 14 ≤ (s'.call i).pc.stage) ∧
      (16 ≤ (s.call i).pc.stage → 16 ≤ (s'.call i).pc.stage) := by
  refine ⟨fun hle => ?_, fun hle => ?_⟩
  · have h14 := h.nopStoppers i
    rw [if_pos hle] at h14
    by_contra hlt
    rw [if_neg hlt] at h14
    cases h14
  · have h16 := h.instrStoppers i
    rw [if_pos hle] at h16
    by_contra hlt
    rw [if_neg hlt] at h16
    cases h16

theorem exitsStopped_step (h : Inv s) (hl : ExitsStopped s) (hc : Creates s a)
    (he : ExitsInStop s a) (hs : step s a = some (es, s')) : ExitsStopped s' := by
  have hstage := (ledgerStep h hc hs).stage_le
  cases a with
  | begin i action =>
    obtain ⟨hpc, -, rfl⟩ := begin_eq hs
    exact ⟨fun j hj => (hstage j).1 (hl.nop j hj), fun j hj => (hstage j).2 (hl.instr j hj)⟩
  | call i err =>
    obtain rfl : err = none := hc
    have hstep := call_step h hs
    have hf := (inv_call h rfl hs).frame
    refine ⟨fun j hj => (hstage j).1 ?_, fun j hj => (hstage j).2 ?_⟩
    · by_cases hji : j = i
      · subst hji
        rcases hstep.nopPc with hn | ⟨-, hn⟩ <;> rw [hn] at hj
        · exact hl.nop j hj
        · cases hj
      · exact hl.nop j (hf.nop j hji ▸ hj)
    · by_cases hji : j = i
      · subst hji
        rcases hstep.instrPc with ht | ⟨-, ht⟩ <;> rw [ht] at hj
        · exact hl.instr j hj
        · cases hj
      · exact hl.instr j (hf.instr j hji ▸ hj)
  | nop i =>
    obtain ⟨⟨es', g', n'⟩, hr, he'⟩ := Option.map_eq_some_iff.mp hs
    obtain ⟨rfl, rfl⟩ := Prod.mk.inj he'
    refine ⟨fun j hj => ?_, hl.instr⟩
    by_cases hji : j = i
    · subst hji
      simp only [setGlobals_nop, setNop_nop_self] at hj
      rcases ((nopF_step hr).exits hj).2 with hexit | ⟨-, hstop⟩
      · have hjoin := he hexit
        simp [hjoin, CallPc.stage]
      · exact (h.own j).nopStop.mp hstop
    · simp only [setGlobals_nop, setNop_nop_of_ne _ _ hji] at hj
      exact hl.nop j hj
  | instr i env =>
    obtain ⟨⟨es', g', t'⟩, hr, he'⟩ := Option.map_eq_some_iff.mp hs
    obtain ⟨rfl, rfl⟩ := Prod.mk.inj he'
    refine ⟨hl.nop, fun j hj => ?_⟩
    by_cases hji : j = i
    · subst hji
      simp only [setGlobals_instr, setInstr_instr_self] at hj
      rcases (instrF_step hr).finishes with ⟨-, -, h1⟩ | ⟨h1, -⟩ | ⟨-, h1, -⟩ | ⟨-, -, h1⟩
      · rw [h1] at hj; cases hj
      · have hjoin := he h1
        simp [hjoin, CallPc.stage]
      · exact (h.own j).instrStop.mp h1
      · exact absurd (Or.inr hj) h1
    · simp only [setGlobals_instr, setInstr_instr_of_ne _ _ hji] at hj
      exact hl.instr j hj
  | sigkill i =>
    obtain ⟨rfl, rfl⟩ := Prod.mk.inj (Option.some.inj hs)
    refine ⟨fun j hj => hl.nop j ?_, hl.instr⟩
    by_cases hji : j = i
    · subst hji; simpa using hj
    · simpa [hji] using hj

theorem exitsStopped_run {G : State ι → Action ι → Prop}
    (hG : ∀ s a, G s a → Creates s a ∧ Serial s a ∧ ExitsInStop s a) {evs : List (Event ι)}
    (h : system.Run G initial evs s) : Inv s ∧ ExitsStopped s := by
  refine h.stateInvariant (I := fun s => Inv s ∧ ExitsStopped s)
    ⟨inv_initial, exitsStopped_initial⟩ ?_
  rintro s a es s' ⟨hi, hl⟩ hg hs
  obtain ⟨hc, hser, he⟩ := hG s a hg
  exact ⟨inv_step hi hser hc hs, exitsStopped_step hi hl hc he hs⟩

/-- A call passes a thread to `kthread_stop` before its own `kthread_stop` of that
thread has been passed. -/
theorem LedgerStep.stops_early (h : LedgerStep s es s') {i j : ι} :
    (Event.stopNop i j ∈ es → ¬ 14 ≤ (s.call j).pc.stage) ∧
      (Event.stopInstr i j ∈ es → ¬ 16 ≤ (s.call j).pc.stage) := by
  refine ⟨fun he hle => ?_, fun he hle => ?_⟩
  · have hmem : i ∈ NopTimer.nopStoppers j es :=
      List.mem_filterMap.mpr ⟨_, he, if_pos rfl⟩
    have h14 := h.nopStoppers j
    rw [if_pos hle, if_pos ((h.stage_le j).1 hle)] at h14
    rw [List.append_right_eq_self.mp h14] at hmem
    cases hmem
  · have hmem : i ∈ NopTimer.instrStoppers j es :=
      List.mem_filterMap.mpr ⟨_, he, if_pos rfl⟩
    have h16 := h.instrStoppers j
    rw [if_pos hle, if_pos ((h.stage_le j).2 hle)] at h16
    rw [List.append_right_eq_self.mp h16] at hmem
    cases hmem

/-- **`kthread_stop` finds its threads running** in every run of serialised calls
whose threads execute `do_exit` only inside the `kthread_stop` called on them. -/
theorem stopsRunning_of_exitsInStop {evs : List (Event ι)}
    (h : system.Run (fun s a => Creates s a ∧ Serial s a ∧ ExitsInStop s a) initial evs s)
    (hc : Creates s a) (hs : step s a = some (es, s')) : StopsRunning s es := by
  obtain ⟨hi, hl⟩ := exitsStopped_run (fun _ _ hg => hg) h
  have hstep := ledgerStep hi hc hs
  exact fun i j => ⟨fun he hex => hstep.stops_early.1 he (hl.nop j hex),
    fun he hex => hstep.stops_early.2 he (hl.instr j hex)⟩

theorem stopInstr_step {i j : ι} (err : Option Nat) (hpc : (s.call i).pc = .stopInstr)
    (hth : s.globals.instrTh = .task j) :
    ∃ s', step s (.call i err) = some ([.stopInstr i j], s') := by
  simp [step, nopTimingStart, hpc, hth]

end Lifetime

/-- One call whose INSTR thread leaves only once `kthread_stop` waits for it, up to
that `kthread_stop`. -/
def stopBeforeExit (i : ι) : List (Action ι) :=
  [.begin i false] ++ List.replicate 11 (.call i none) ++ measure i ++
    List.replicate 2 (.call i none) ++ List.replicate 2 (.nop i) ++ [.call i none]

/-- The same call, whose INSTR thread goes on from `finish = true` to its
`do_exit` while the caller sleeps. -/
def exitBeforeStop (i : ι) : List (Action ι) :=
  [.begin i false] ++ List.replicate 11 (.call i none) ++ measure i ++ [.instr i twoCpus] ++
    List.replicate 2 (.call i none) ++ List.replicate 2 (.nop i) ++ [.call i none]

set_option maxRecDepth 4000 in
theorem stopsRunning_of_exitsInStop_single : ∃ (evs : List (Event Unit)) (s s' : State Unit),
    system.Run (fun s a => Creates s a ∧ Serial s a ∧ ExitsInStop s a) initial evs s ∧
      step s (.call () none) = some ([.stopInstr () ()], s') ∧
        StopsRunning s [Event.stopInstr () ()] := by
  obtain ⟨evs, s, hrun, hpc, hth⟩ := System.Run.exists_of_exec system
    (fun s a => Creates s a ∧ Serial s a ∧ ExitsInStop s a) initial (stopBeforeExit ())
    (fun _ s => (s.call ()).pc = .stopInstr ∧ s.globals.instrTh = .task ()) (by decide +kernel)
  obtain ⟨s', hs⟩ := stopInstr_step none hpc hth
  exact ⟨evs, s, s', hrun, hs, stopsRunning_of_exitsInStop (a := .call () none) hrun rfl hs⟩

set_option maxRecDepth 4000 in
/-- **`kthread_stop` is called on a thread that has exited**: the INSTR thread
executes `do_exit` before the caller sees `finish`. -/
theorem stops_exited_thread :
    ¬ ∀ (evs : List (Event Unit)) (s s' : State Unit) (a : Action Unit) (es : List (Event Unit)),
      system.Run Creates initial evs s → Creates s a → step s a = some (es, s') →
        StopsRunning s es := by
  intro hall
  obtain ⟨evs, s, hrun, hpc, hth, hex⟩ := System.Run.exists_of_exec system Creates initial
    (exitBeforeStop ()) (fun _ s => (s.call ()).pc = .stopInstr ∧ s.globals.instrTh = .task () ∧
      (s.instr ()).pc = .exited) (by decide +kernel)
  obtain ⟨s', hs⟩ := stopInstr_step none hpc hth
  exact (hall evs s s' (.call () none) _ hrun rfl hs () ()).2 List.mem_cons_self hex

/-! ## The handshake and SIGKILL -/

/-- The INSTR thread is about to set `reset_count` or `print_count`. -/
def InstrPc.requests : InstrPc → Bool
  | .atLoop _ .setReset _ | .atLoop _ .setPrint _ => true
  | _ => false

/-- The INSTR thread waits for an answer that has not been given. -/
def Awaiting (g : Globals ι) (t : InstrThread) : Prop :=
  t.pc.awaitsReset = true ∧ g.resetCount = true ∨ t.pc.awaitsPrint = true ∧ g.printCount = true

/-- The NOP thread has left its loop. -/
def NopThread.Left (n : NopThread) : Prop := n.pc = .doExit ∨ n.pc = .exited

/-- **A stuck handshake** of call `i`: none of the three threads can make progress. -/
structure Stuck (s : State ι) (i : ι) : Prop where
  nopExited : (s.nop i).pc = .exited
  awaiting : Awaiting s.globals (s.instr i)
  notStopped : (s.instr i).shouldStop = false
  polling : (s.call i).pc = .poll ∨ (s.call i).pc = .sleep
  unfinished : s.globals.finish = false

/-- The NOP thread obeys a signal only while no request waits for it, and the INSTR
thread makes no request of a NOP thread that has left its loop. -/
def Answered (s : State ι) : Action ι → Prop
  | .nop i => (s.nop i).pc = .testSignal → (s.nop i).sigPending = true →
      ¬ Awaiting s.globals (s.instr i)
  | .instr i _ => (s.instr i).pc.requests = true → ¬ (s.nop i).Left
  | _ => True

instance (g : Globals ι) (t : InstrThread) : Decidable (Awaiting g t) :=
  inferInstanceAs (Decidable (_ ∨ _))

instance (n : NopThread) : Decidable n.Left := inferInstanceAs (Decidable (_ ∨ _))

instance (s : State ι) : (a : Action ι) → Decidable (Answered s a)
  | .nop i => inferInstanceAs (Decidable ((s.nop i).pc = .testSignal →
      (s.nop i).sigPending = true → ¬ Awaiting s.globals (s.instr i)))
  | .instr i _ => inferInstanceAs (Decidable ((s.instr i).pc.requests = true → ¬ (s.nop i).Left))
  | .begin _ _ | .call _ _ | .sigkill _ => isTrue trivial

theorem Awaiting.not_done {g : Globals ι} {t : InstrThread} (h : Awaiting g t) : ¬ t.Done := by
  rintro (hd | hd) <;> rcases h with ⟨h, -⟩ | ⟨h, -⟩ <;> rw [hd] at h <;> cases h

theorem not_awaiting_of_waits_not {g : Globals ι} {t : InstrThread}
    (h : t.pc.awaitsReset = false ∧ t.pc.awaitsPrint = false) : ¬ Awaiting g t := by
  rintro (⟨hw, -⟩ | ⟨hw, -⟩)
  · rw [h.1] at hw; cases hw
  · rw [h.2] at hw; cases hw

/-- Inside a timing macro, the INSTR thread waits only after it has made a request. -/
theorem nopTimingLoop_awaits (i : ι) (g : Globals ι) (env : Env) (t : InstrThread)
    (l : TimingLoop) (p : LoopPc) (rest : List TimingLoop) (hpc : t.pc = .atLoop l p rest)
    (hw : Awaiting (nopTimingLoop i g env t l p rest).2.1 (nopTimingLoop i g env t l p rest).2.2) :
    Awaiting g t ∨ t.pc.requests = true := by
  unfold nopTimingLoop at hw
  cases p
  case setReset | setPrint => exact Or.inr (by rw [hpc]; rfl)
  case spinReset =>
    cases hr : g.resetCount <;> simp only [hr] at hw
    · exact absurd hw (not_awaiting_of_waits_not ⟨rfl, rfl⟩)
    · exact Or.inl (Or.inl ⟨by rw [hpc]; rfl, hr⟩)
  case spinResetStop =>
    cases hstop : t.shouldStop <;> simp only [hstop] at hw
    · rcases hw with ⟨-, hr⟩ | ⟨hp, -⟩
      · exact Or.inl (Or.inl ⟨by rw [hpc]; rfl, hr⟩)
      · cases hp
    · exact absurd hw (not_awaiting_of_waits_not ⟨rfl, rfl⟩)
  case spinPrint =>
    cases hp : g.printCount <;> simp only [hp] at hw
    · exact absurd hw (not_awaiting_of_waits_not (afterBody_waits_not l rest))
    · exact Or.inl (Or.inr ⟨by rw [hpc]; rfl, hp⟩)
  case spinPrintStop =>
    cases hstop : t.shouldStop <;> simp only [hstop] at hw
    · rcases hw with ⟨hr, -⟩ | ⟨-, hp⟩
      · cases hr
      · exact Or.inl (Or.inr ⟨by rw [hpc]; rfl, hp⟩)
    · exact absurd hw (not_awaiting_of_waits_not (afterBody_waits_not l rest))
  case bootCpuHas f =>
    cases hb : env.bootCpuHas f <;> simp only [hb] at hw
    · exact absurd hw (not_awaiting_of_waits_not (nextLoop_waits_not rest))
    · exact absurd hw (not_awaiting_of_waits_not ⟨rfl, rfl⟩)
  case testVmemAligned | testOnline =>
    refine absurd hw (not_awaiting_of_waits_not ?_)
    simp only
    split <;> exact ⟨rfl, rfl⟩
  case zero => exact absurd hw (not_awaiting_of_waits_not (afterBody_waits_not l rest))
  case irqEnable => exact absurd hw (not_awaiting_of_waits_not (nextLoop_waits_not rest))
  case forCall left => cases left <;> exact absurd hw (not_awaiting_of_waits_not ⟨rfl, rfl⟩)
  all_goals exact absurd hw (not_awaiting_of_waits_not ⟨rfl, rfl⟩)

/-- An INSTR thread that waits was waiting before, or has just made its request. -/
theorem instrF_awaits {i : ι} {g g' : Globals ι} {env : Env} {t t' : InstrThread}
    {es : List (Event ι)} (h : instrF i g env t = some (es, g', t')) (hw : Awaiting g' t') :
    Awaiting g t ∨ t.pc.requests = true := by
  unfold instrF at h
  split at h
  case isFalse => cases h
  case isTrue =>
    cases hpc : t.pc <;> simp only [hpc] at h
    case notCreated | exited => cases h
    case atLoop l p rest =>
      rw [← hpc]
      refine nopTimingLoop_awaits i g env t l p rest hpc ?_
      rw [Option.some.inj h]
      exact hw
    case aggregating =>
      cases h
      exact absurd hw (not_awaiting_of_waits_not (nextLoop_waits_not _))
    case created =>
      cases h
      refine absurd hw (not_awaiting_of_waits_not ?_)
      simp only
      split <;> exact ⟨rfl, rfl⟩
    all_goals
      cases h
      exact absurd hw (not_awaiting_of_waits_not ⟨rfl, rfl⟩)

/-- An INSTR thread that waits for an answer, and is not stopped, waits on. -/
theorem instrF_waits {i : ι} {g g' : Globals ι} {env : Env} {t t' : InstrThread}
    {es : List (Event ι)} (h : instrF i g env t = some (es, g', t')) (hw : Awaiting g t)
    (hstop : t.shouldStop = false) : g' = g ∧ Awaiting g t' := by
  unfold instrF at h
  split at h
  case isFalse => cases h
  case isTrue =>
    rcases hw with ⟨hw, hr⟩ | ⟨hw, hp⟩
    · cases hpc : t.pc <;> rw [hpc] at hw h <;> try cases hw
      rename_i l p rest
      cases p <;> try cases hw
      all_goals
        simp only [nopTimingLoop, hr, hstop, if_true, Bool.false_eq_true, if_false] at h
        cases h
        exact ⟨rfl, Or.inl ⟨rfl, hr⟩⟩
    · cases hpc : t.pc <;> rw [hpc] at hw h <;> try cases hw
      rename_i l p rest
      cases p <;> try cases hw
      all_goals
        simp only [nopTimingLoop, hp, hstop, if_true, Bool.false_eq_true, if_false] at h
        cases h
        exact ⟨rfl, Or.inr ⟨rfl, hp⟩⟩

section Stuck
variable [DecidableEq ι] {s s' : State ι} {i : ι} {es : List (Event ι)}

/-- **No request goes unanswered** in a run that keeps to `Answered`: a call in its
section whose NOP thread has left its loop awaits nothing. -/
theorem answered_run {evs : List (Event ι)}
    (h : system.Run (fun s a => Creates s a ∧ Serial s a ∧ Answered s a) initial evs s)
    (hsec : (s.call i).pc.InSection) (hleft : (s.nop i).Left) :
    ¬ Awaiting s.globals (s.instr i) := by
  refine section_run (Q := fun _ g _ n t => n.Left → ¬ Awaiting g t)
    (fun _ _ hg => ⟨hg.2.1, hg.1⟩) ?_ ?_ h hsec hleft
  · intro s i action hi hpc hl hw
    have hn := (hi.own i).nopCreated.mpr (by simp [hpc, CallPc.stage])
    rcases hl with hl | hl <;> rw [hn] at hl <;> cases hl
  · intro s a es s' hi hsec hQ hg ha hs hl hw
    cases a with
    | begin i action => exact ha i action rfl
    | call i err =>
      obtain rfl : err = none := hg.1
      have hstep := call_step hi hs
      have hl' : (s.nop i).Left := by
        rcases hstep.nopPc with hn | ⟨-, hn⟩
        · rwa [NopThread.Left, ← hn]
        · rcases hl with hl | hl <;> rw [Action.actor, hn] at hl <;> cases hl
      refine hQ hl' ?_
      rcases hstep.instrPc with ht | ⟨-, ht⟩
      · rcases hw with ⟨hw, hw'⟩ | ⟨hw, hw'⟩ <;> rw [Action.actor, ht] at hw
        · exact Or.inl ⟨hw, (hstep.reset hw').1⟩
        · exact Or.inr ⟨hw, (hstep.print hw').1⟩
      · exact absurd hw (not_awaiting_of_waits_not (by rw [Action.actor, ht]; exact ⟨rfl, rfl⟩))
    | nop i =>
      obtain ⟨⟨es', g', n'⟩, hr, he⟩ := Option.map_eq_some_iff.mp hs
      obtain ⟨rfl, rfl⟩ := Prod.mk.inj he
      simp only [Action.actor, setGlobals_nop, setNop_nop_self, setGlobals_globals,
        setGlobals_instr, setNop_instr] at hl hw hQ hsec
      have hn := nopF_step hr
      -- a NOP thread that was stopped has a caller that saw `finish`
      have hstopped : (s.nop i).shouldStop = true → ¬ Awaiting s.globals (s.instr i) := by
        intro hstop haw
        have h14 := (hi.own i).nopStop.mp hstop
        exact haw.not_done ((hi.own i).instrDone (by omega))
      rcases hl with hl | hl
      · obtain ⟨rfl, ⟨-, hstop⟩ | ⟨hsig, hpend⟩⟩ := hn.leaves hl
        · exact hstopped hstop hw
        · have h11 := (hi.own i).nopAwake.mp hn.awake.1
          rw [(hi.owner i hsec).nopTh (by omega)] at hpend
          exact hg.2.2 hsig (Option.some.inj hpend) hw
      · obtain ⟨rfl, hexit | ⟨-, hstop⟩⟩ := hn.exits hl
        · exact hQ (Or.inl hexit) hw
        · exact hstopped hstop hw
    | instr i env =>
      obtain ⟨⟨es', g', t'⟩, hr, he⟩ := Option.map_eq_some_iff.mp hs
      obtain ⟨rfl, rfl⟩ := Prod.mk.inj he
      simp only [Action.actor, setGlobals_nop, setInstr_nop, setGlobals_globals,
        setGlobals_instr, setInstr_instr_self] at hl hw hQ
      rcases instrF_awaits hr hw with hw' | hreq
      · exact hQ hl hw'
      · exact hg.2.2 hreq hl
    | sigkill i =>
      obtain ⟨rfl, rfl⟩ := Prod.mk.inj (Option.some.inj hs)
      simp only [Action.actor, setNop_nop_self, setNop_globals, setNop_instr] at hl hw hQ
      exact hQ hl hw

omit [DecidableEq ι] in
theorem Stuck.stage_eq (h : Stuck s i) : (s.call i).pc.stage = 12 := by
  rcases h.polling with hpc | hpc <;> rw [hpc] <;> rfl

omit [DecidableEq ι] in
theorem Stuck.inSection (h : Stuck s i) : (s.call i).pc.InSection := by
  rw [CallPc.InSection, h.stage_eq]
  omega

/-- No signal is pending, and a NOP thread has left its loop only for `kthread_stop`. -/
structure Unkilled (s : State ι) : Prop where
  pending : ∀ i, (s.nop i).sigPending = false
  left : ∀ i, (s.nop i).Left → 14 ≤ (s.call i).pc.stage

omit [DecidableEq ι] in
theorem unkilled_initial : Unkilled (initial : State ι) where
  pending _ := rfl
  left _ h := by rcases h with h | h <;> cases h

/-- `nop_timing_start` signals nobody. -/
theorem nopTimingStart_pending {err : Option Nat} (h : step s (.call i err) = some (es, s'))
    (hp : ∀ j, (s.nop j).sigPending = false) (j : ι) : (s'.nop j).sigPending = false := by
  have hset : ∀ (k : ι) (t : NopThread), t.sigPending = false →
      ((s.setNop k t).nop j).sigPending = false := by
    intro k t ht
    by_cases hjk : j = k
    · subst hjk
      rwa [setNop_nop_self]
    · rw [setNop_nop_of_ne _ _ hjk]
      exact hp j
  change nopTimingStart s i err = some (es, s') at h
  unfold nopTimingStart at h
  cases hpc : (s.call i).pc <;> simp only [hpc] at h
  case notCalled | returned | faulted => cases h
  case createNop =>
    split at h <;> cases h
    · exact hset i .fresh rfl
    · exact hp j
  case wakeNop | stopNop =>
    split at h <;> cases h
    · exact hset _ _ (hp _)
    · exact hp j
  case clearReset | clearPrint | clearFinish | sleep | testNop | testInstr | poll =>
    cases h
    exact hp j
  all_goals
    split at h <;> cases h
    all_goals exact hp j

/-- **Without SIGKILLs** every step keeps this. -/
theorem unkilled_step (h : Inv s) (hu : Unkilled s) (hc : Creates s a) (hk : NoKill s a)
    (hs : step s a = some (es, s')) : Unkilled s' := by
  have hstage := (ledgerStep h hc hs).stage_le
  cases a with
  | begin i action =>
    obtain ⟨hpc, -, rfl⟩ := begin_eq hs
    exact ⟨hu.pending, fun j hj => (hstage j).1 (hu.left j hj)⟩
  | call i err =>
    obtain rfl : err = none := hc
    have hstep := call_step h hs
    have hf := (inv_call h rfl hs).frame
    refine ⟨nopTimingStart_pending hs hu.pending, fun j hj => (hstage j).1 (hu.left j ?_)⟩
    by_cases hji : j = i
    · subst hji
      rcases hstep.nopPc with hn | ⟨-, hn⟩
      · rwa [NopThread.Left, ← hn]
      · rcases hj with hj | hj <;> rw [hn] at hj <;> cases hj
    · exact hf.nop j hji ▸ hj
  | nop i =>
    obtain ⟨⟨es', g', n'⟩, hr, he'⟩ := Option.map_eq_some_iff.mp hs
    obtain ⟨rfl, rfl⟩ := Prod.mk.inj he'
    have hstep := nopF_step hr
    refine ⟨fun j => ?_, fun j hj => ?_⟩
    · by_cases hji : j = i
      · subst hji
        simp only [setGlobals_nop, setNop_nop_self]
        exact hstep.sigPending.trans (hu.pending j)
      · simp only [setGlobals_nop, setNop_nop_of_ne _ _ hji]
        exact hu.pending j
    · by_cases hji : j = i
      · subst hji
        simp only [setGlobals_nop, setNop_nop_self] at hj
        rcases hj with hj | hj
        · rcases (hstep.leaves hj).2 with ⟨-, hstop⟩ | ⟨-, hsignal⟩
          · exact (h.own j).nopStop.mp hstop
          · -- nobody has been signalled
            unfold State.signalPending at hsignal
            split at hsignal
            · rw [hu.pending] at hsignal
              cases hsignal
            · cases hsignal
        · rcases (hstep.exits hj).2 with hexit | ⟨-, hstop⟩
          · exact hu.left j (Or.inl hexit)
          · exact (h.own j).nopStop.mp hstop
      · simp only [setGlobals_nop, setNop_nop_of_ne _ _ hji] at hj
        exact hu.left j hj
  | instr i env =>
    obtain ⟨⟨es', g', t'⟩, hr, he'⟩ := Option.map_eq_some_iff.mp hs
    obtain ⟨rfl, rfl⟩ := Prod.mk.inj he'
    exact ⟨hu.pending, hu.left⟩
  | sigkill i => exact hk.elim

theorem unkilled_run {evs : List (Event ι)}
    (h : system.Run (fun s a => Creates s a ∧ Serial s a ∧ NoKill s a) initial evs s) :
    Inv s ∧ Unkilled s := by
  refine h.stateInvariant (I := fun s => Inv s ∧ Unkilled s) ⟨inv_initial, unkilled_initial⟩ ?_
  rintro s a es s' ⟨hi, hu⟩ ⟨hc, hser, hk⟩ hs
  exact ⟨inv_step hi hser hc hs, unkilled_step hi hu hc hk hs⟩

omit [DecidableEq ι] in
/-- **Without SIGKILLs every request is answered.** -/
theorem answered_of_unkilled (h : Inv s) (hu : Unkilled s) (a : Action ι) : Answered s a := by
  cases a with
  | nop i =>
    intro _ hsignal
    rw [hu.pending] at hsignal
    cases hsignal
  | instr i env =>
    intro hrequests hleft
    -- an INSTR thread in its table has not set `finish`
    rcases (h.own i).instrDone (by have := hu.left i hleft; omega) with hd | hd <;>
      rw [hd] at hrequests <;> cases hrequests
  | begin | call | sigkill => trivial

/-- **No handshake gets stuck** in a run of serialised calls in which the NOP thread
obeys a signal only while no request waits for it, and no request is made of a NOP
thread that has left its loop. -/
theorem not_stuck_of_answered {evs : List (Event ι)}
    (h : system.Run (fun s a => Creates s a ∧ Serial s a ∧ Answered s a) initial evs s) (i : ι) :
    ¬ Stuck s i := fun hstuck =>
  answered_run h hstuck.inSection (Or.inr hstuck.nopExited) hstuck.awaiting

/-- **The condition is exact**: once the NOP thread has left its loop while a
request waits for it, the handshake is stuck, at the latest after its `do_exit`. -/
theorem stuck_of_left (hi : Inv s) (hsec : (s.call i).pc.InSection) (hleft : (s.nop i).Left)
    (hw : Awaiting s.globals (s.instr i)) :
    Stuck s i ∨ ∃ s', step s (.nop i) = some ([], s') ∧ Stuck s' i := by
  have ho := hi.own i
  have hd := hw.not_done
  have hle : (s.call i).pc.stage ≤ 12 := by
    by_contra hlt
    exact hd (ho.instrDone (by omega))
  have hge : 12 ≤ (s.call i).pc.stage := by
    by_contra hlt
    refine not_awaiting_of_waits_not ?_ hw
    rcases ho.instrAsleep (by omega) with hpc | hpc <;> rw [hpc] <;> exact ⟨rfl, rfl⟩
  have hpoll : (s.call i).pc = .poll ∨ (s.call i).pc = .sleep := by
    cases hpc : (s.call i).pc <;> rw [hpc] at hle hge <;> simp [CallPc.stage] at hle hge ⊢
  have hstop : (s.instr i).shouldStop = false := by
    rw [Bool.eq_false_iff]
    intro hs
    have h16 := ho.instrStop.mp hs
    omega
  have hfin : s.globals.finish = false := by
    rw [Bool.eq_false_iff]
    exact fun hf => hd (((hi.owner i hsec).finish (by omega)).mp hf)
  rcases hleft with hn | hn
  · have hs : step s (.nop i) =
        some ([], (s.setNop i { s.nop i with pc := .exited }).setGlobals s.globals) := by
      simp [step, nopF, ho.nopAwake.mpr (by omega), hn]
    exact Or.inr ⟨_, hs, by simp, hw, hstop, hpoll, hfin⟩
  · exact Or.inl ⟨hn, hw, hstop, hpoll, hfin⟩

/-- **A stuck handshake stays stuck**, whatever step of serialised calls comes next. -/
theorem Stuck.step {a : Action ι} (h : Stuck s i) (hi : Inv s) (hser : Serial s a)
    (hc : Creates s a) (hs : step s a = some (es, s')) : Stuck s' i := by
  have ha : ∀ j action, a ≠ .begin j action := by
    rintro j action rfl
    exact hser i h.inSection
  by_cases hai : i = a.actor
  · subst hai
    obtain ⟨hexit, hw, hstop, hpoll, hfin⟩ := h
    cases a with
    | begin j action => exact absurd rfl (ha j action)
    | call i err =>
      simp only [Action.actor] at *
      rcases hpoll with hpc | hpc
      · simp only [NopTimer.step, nopTimingStart, hpc, hfin, Bool.false_eq_true, if_false] at hs
        cases hs
        exact ⟨hexit, hw, hstop, Or.inr (by simp), hfin⟩
      · simp only [NopTimer.step, nopTimingStart, hpc] at hs
        cases hs
        exact ⟨hexit, hw, hstop, Or.inl (by simp), hfin⟩
    | nop i =>
      obtain ⟨⟨es', g', n'⟩, hr, he⟩ := Option.map_eq_some_iff.mp hs
      exact absurd hexit (nopF_step hr).running.2
    | instr i env =>
      obtain ⟨⟨es', g', t'⟩, hr, he⟩ := Option.map_eq_some_iff.mp hs
      obtain ⟨rfl, rfl⟩ := Prod.mk.inj he
      obtain ⟨rfl, hw'⟩ := instrF_waits hr hw hstop
      refine ⟨hexit, by simpa [Action.actor] using hw', ?_, hpoll, hfin⟩
      simpa [Action.actor, (instrF_step hr).shouldStop] using hstop
    | sigkill i =>
      obtain ⟨rfl, rfl⟩ := Prod.mk.inj (Option.some.inj hs)
      exact ⟨by simpa [Action.actor] using hexit, hw, hstop, hpoll, hfin⟩
  · have hf := (keeps_step hi ha hc hs).frame
    have hout : ¬ (s.call a.actor).pc.InSection :=
      fun h' => hai (hi.exclusive _ _ h.inSection h')
    obtain ⟨hexit, hw, hstop, hpoll, hfin⟩ := h
    constructor
    · rw [hf.nop i hai]; exact hexit
    · rw [hf.globals hout, hf.instr i hai]; exact hw
    · rw [hf.instr i hai]; exact hstop
    · rw [hf.call i hai]; exact hpoll
    · rw [hf.globals hout]; exact hfin

end Stuck

/-- A call whose NOP thread is killed before it has seen a request. -/
def killedCall (i : ι) : List (Action ι) :=
  [.begin i false] ++ List.replicate 11 (.call i none) ++
    List.replicate 2 (.nop i) ++ [.sigkill i] ++ List.replicate 3 (.nop i) ++
    List.replicate 7 (.instr i twoCpus)

set_option maxRecDepth 4000 in
/-- A SIGKILL that is obeyed after `finish = true`. -/
theorem not_stuck_of_answered_late_kill : ∃ (evs : List (Event Unit)) (s : State Unit),
    system.Run (fun s a => Creates s a ∧ Serial s a ∧ Answered s a) initial evs s ∧
      (s.nop ()).pc = .exited ∧ (s.instr ()).pc = .doExit ∧ ¬ Stuck s () := by
  obtain ⟨evs, s, hrun, hn, ht⟩ := System.Run.exists_of_exec system
    (fun s a => Creates s a ∧ Serial s a ∧ Answered s a) initial
    ([.begin () false] ++ List.replicate 11 (.call () none) ++ measure () ++ [.sigkill ()] ++
      List.replicate 3 (.nop ()))
    (fun _ s => (s.nop ()).pc = .exited ∧ (s.instr ()).pc = .doExit) (by decide +kernel)
  exact ⟨evs, s, hrun, hn, ht, not_stuck_of_answered hrun ()⟩

/-- **A SIGKILL sticks the handshake**: the NOP thread obeys it and the INSTR thread
waits for a NOP thread that has exited. -/
theorem killed_call_stuck :
    ¬ ∀ (evs : List (Event Unit)) (s : State Unit),
      system.Run Creates initial evs s → ¬ Stuck s () := by
  intro hall
  obtain ⟨evs, s, hrun, hn, hw, hstop, hpoll, hfin⟩ := System.Run.exists_of_exec system Creates
    initial (killedCall ()) (fun _ s => (s.nop ()).pc = .exited ∧
      Awaiting s.globals (s.instr ()) ∧ (s.instr ()).shouldStop = false ∧
      ((s.call ()).pc = .poll ∨ (s.call ()).pc = .sleep) ∧ s.globals.finish = false)
    (by decide +kernel)
  exact hall evs s hrun ⟨hn, hw, hstop, hpoll, hfin⟩

end EcrToolkit.NopTimer
