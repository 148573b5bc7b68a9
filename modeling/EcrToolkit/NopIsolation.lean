import EcrToolkit.NopSession

/-!
# Isolation of concurrent calls

Two clients can be inside `nop_timing_start` at the same time.  `Isolated` says
what each of them relies on: the call returns after its own INSTR thread has set
`finish`, its two threads have exited by then, and each thread was passed to
`kthread_stop` once, by the call that created it.

`isolated_of_serial` proves it of every run of serialised calls, for any number
of calls.  Nothing in the module serialises them: `nop_th`, `instr_th` and
`finish` are one set of globals for all calls.  `overlapping_calls_not_isolated`
is a run of two overlapping calls of which one stops the other's NOP thread.
-/
namespace EcrToolkit.NopTimer

open Transitions

variable {ι : Type}

section Ledger
variable [DecidableEq ι]

/-- The calls that passed the NOP thread of call `j` to `kthread_stop`, in order. -/
def nopStoppers (j : ι) (evs : List (Event ι)) : List ι :=
  evs.filterMap fun
    | .stopNop i k => if k = j then some i else none
    | _ => none

/-- The calls that passed the INSTR thread of call `j` to `kthread_stop`, in order. -/
def instrStoppers (j : ι) (evs : List (Event ι)) : List ι :=
  evs.filterMap fun
    | .stopInstr i k => if k = j then some i else none
    | _ => none

theorem nopStoppers_append (j : ι) (evs es : List (Event ι)) :
    nopStoppers j (evs ++ es) = nopStoppers j evs ++ nopStoppers j es :=
  List.filterMap_append

theorem instrStoppers_append (j : ι) (evs es : List (Event ι)) :
    instrStoppers j (evs ++ es) = instrStoppers j evs ++ instrStoppers j es :=
  List.filterMap_append

/-- **What a caller of `nop_timing_start` relies on**, whatever other calls do. -/
structure Isolated (evs : List (Event ι)) (s : State ι) : Prop where
  /-- The call returns after its own INSTR thread has executed `finish = true`. -/
  finished : ∀ i, (s.call i).pc = .returned → Event.finish i ∈ evs
  /-- No thread the call created is still running when it returns. -/
  exited : ∀ i, (s.call i).pc = .returned → (s.nop i).pc = .exited ∧ (s.instr i).pc = .exited
  /-- Only the call that created a thread passes it to `kthread_stop`, and once. -/
  atMostOnce : ∀ i, nopStoppers i evs ∈ [[], [i]] ∧ instrStoppers i evs ∈ [[], [i]]
  /-- By the time it returns it has done so. -/
  once : ∀ i, (s.call i).pc = .returned → nopStoppers i evs = [i] ∧ instrStoppers i evs = [i]

/-- The log of a run agrees with the stage every call has reached. -/
structure Ledger (evs : List (Event ι)) (s : State ι) : Prop where
  nopStoppers : ∀ i, nopStoppers i evs = if 14 ≤ (s.call i).pc.stage then [i] else []
  instrStoppers : ∀ i, instrStoppers i evs = if 16 ≤ (s.call i).pc.stage then [i] else []
  finished : ∀ i, (s.instr i).Done → Event.finish i ∈ evs

/-- What one step adds to the ledger. -/
structure LedgerStep (s : State ι) (es : List (Event ι)) (s' : State ι) : Prop where
  nopStoppers : ∀ i, (if 14 ≤ (s.call i).pc.stage then [i] else []) ++ nopStoppers i es =
    if 14 ≤ (s'.call i).pc.stage then [i] else []
  instrStoppers : ∀ i, (if 16 ≤ (s.call i).pc.stage then [i] else []) ++ instrStoppers i es =
    if 16 ≤ (s'.call i).pc.stage then [i] else []
  finished : ∀ i, (s'.instr i).Done → (s.instr i).Done ∨ Event.finish i ∈ es

theorem Ledger.step {evs es : List (Event ι)} {s s' : State ι} (h : Ledger evs s)
    (hs : LedgerStep s es s') : Ledger (evs ++ es) s' where
  nopStoppers i := by rw [nopStoppers_append, h.nopStoppers, hs.nopStoppers]
  instrStoppers i := by rw [instrStoppers_append, h.instrStoppers, hs.instrStoppers]
  finished i hd := by
    rcases hs.finished i hd with hd | hd
    · exact List.mem_append_left _ (h.finished i hd)
    · exact List.mem_append_right _ hd

/-- A step that stops no thread and takes no call past a `kthread_stop`. -/
theorem LedgerStep.quiet {s s' : State ι} {es : List (Event ι)} (hcall : s'.call = s.call)
    (hes : ∀ j, NopTimer.nopStoppers j es = [] ∧ NopTimer.instrStoppers j es = [])
    (hfin : ∀ i, (s'.instr i).Done → (s.instr i).Done ∨ Event.finish i ∈ es) :
    LedgerStep s es s' where
  nopStoppers i := by rw [hcall, (hes i).1, List.append_nil]
  instrStoppers i := by rw [hcall, (hes i).2, List.append_nil]
  finished := hfin

theorem nopF_stops_none {i j : ι} {g g' : Globals ι} {pending : Option Bool} {t t' : NopThread}
    {es : List (Event ι)} (h : nopF i g pending t = some (es, g', t')) :
    nopStoppers j es = [] ∧ instrStoppers j es = [] := by
  unfold nopF at h
  split at h
  case isFalse => cases h
  case isTrue =>
    cases hpc : t.pc <;> simp only [hpc] at h
    case notCreated | exited | faulted => cases h
    case testSignal => rcases pending with _ | _ | _ <;> cases h <;> exact ⟨rfl, rfl⟩
    all_goals cases h; exact ⟨rfl, rfl⟩

theorem nopTimingLoop_stops_none (i j : ι) (g : Globals ι) (env : Env) (t : InstrThread)
    (l : TimingLoop) (p : LoopPc) (rest : List TimingLoop) :
    nopStoppers j (nopTimingLoop i g env t l p rest).1 = [] ∧
      instrStoppers j (nopTimingLoop i g env t l p rest).1 = [] := by
  unfold nopTimingLoop
  cases p
  case spinReset => cases g.resetCount <;> exact ⟨rfl, rfl⟩
  case spinResetStop => cases t.shouldStop <;> exact ⟨rfl, rfl⟩
  case forCall left => cases left <;> exact ⟨rfl, rfl⟩
  case spinPrint => cases g.printCount <;> exact ⟨rfl, rfl⟩
  case spinPrintStop => cases t.shouldStop <;> exact ⟨rfl, rfl⟩
  all_goals exact ⟨rfl, rfl⟩

/-- The INSTR thread stops no thread, and is done only after `finish = true`,
unless it was stopped before it ran. -/
theorem instrF_ledger {i j : ι} {g g' : Globals ι} {env : Env} {t t' : InstrThread}
    {es : List (Event ι)} (h : instrF i g env t = some (es, g', t')) :
    (nopStoppers j es = [] ∧ instrStoppers j es = []) ∧
      (t'.Done → t.Done ∨ Event.finish i ∈ es ∨ t.pc = .created ∧ t.shouldStop = true) := by
  have hstep := instrF_step h
  unfold instrF at h
  split at h
  case isFalse => cases h
  case isTrue =>
    cases hpc : t.pc <;> simp only [hpc] at h
    case notCreated | exited => cases h
    case atLoop l p rest =>
      have hl := nopTimingLoop_stops_none i j g env t l p rest
      rw [Option.some.inj h] at hl
      refine ⟨hl, fun hd => ?_⟩
      rcases hstep.finishes with ⟨h1, -⟩ | ⟨h1, -⟩ | ⟨h1, h2, -⟩ | ⟨-, -, h1⟩
      · rw [hpc] at h1; cases h1
      · exact Or.inl (Or.inl h1)
      · exact Or.inr (Or.inr ⟨hpc.symm.trans h1, h2⟩)
      · exact absurd hd h1
    case setFinish => cases h; exact ⟨⟨rfl, rfl⟩, fun _ => Or.inr (Or.inl List.mem_cons_self)⟩
    case doExit => cases h; exact ⟨⟨rfl, rfl⟩, fun _ => Or.inl (Or.inl hpc)⟩
    case created =>
      cases h
      refine ⟨⟨rfl, rfl⟩, fun hd => ?_⟩
      by_cases hstop : t.shouldStop = true
      · exact Or.inr (Or.inr ⟨rfl, hstop⟩)
      · simp [InstrThread.Done, hstop] at hd
    case aggregating =>
      have hn := nextLoop_not_done (nopLoops t.action)
      cases h
      refine ⟨⟨rfl, rfl⟩, fun hd => ?_⟩
      rcases hd with hd | hd
      · exact absurd hd hn.1
      · exact absurd hd hn.2.1
    case allowSignal =>
      cases h
      exact ⟨⟨rfl, rfl⟩, fun hd => by simp [InstrThread.Done] at hd⟩

/-- A call passes only its own threads to `kthread_stop`, each once. -/
theorem call_ledger {s s' : State ι} {i : ι} {es : List (Event ι)} (h : Inv s)
    (hs : step s (.call i none) = some (es, s')) : LedgerStep s es s' := by
  change nopTimingStart s i none = some (es, s') at hs
  have ho := h.own i
  have hw := h.owner i
  -- the stage of call `i` alone changes, past a `kthread_stop` only with its event
  have build : ∀ pc : CallPc ι, s'.call = Function.update s.call i { s.call i with pc := pc } →
      (∀ k, (s'.instr k).Done → (s.instr k).Done) →
      (if 14 ≤ (s.call i).pc.stage then [i] else []) ++ nopStoppers i es =
        (if 14 ≤ pc.stage then [i] else []) →
      (if 16 ≤ (s.call i).pc.stage then [i] else []) ++ instrStoppers i es =
        (if 16 ≤ pc.stage then [i] else []) →
      (∀ k, k ≠ i → nopStoppers k es = [] ∧ instrStoppers k es = []) → LedgerStep s es s' := by
    intro pc hcall hdone h14 h16 hother
    refine ⟨fun k => ?_, fun k => ?_, fun k hd => Or.inl (hdone k hd)⟩ <;> rw [hcall]
    · by_cases hk : k = i
      · subst hk; rw [Function.update_self]; exact h14
      · rw [Function.update_of_ne hk, (hother k hk).1, List.append_nil]
    · by_cases hk : k = i
      · subst hk; rw [Function.update_self]; exact h16
      · rw [Function.update_of_ne hk, (hother k hk).2, List.append_nil]
  unfold nopTimingStart at hs
  cases hpc : (s.call i).pc <;> simp only [hpc] at hs build
  case notCalled | returned | faulted => cases hs
  all_goals
    rw [hpc] at hw
    simp only [CallPc.InSection, CallPc.stage, Nat.reduceLeDiff, and_self, and_false,
      forall_const, false_implies] at hw
  case clearReset | clearPrint | clearFinish | createNop | sleep =>
    cases hs
    exact build _ rfl (fun _ hd => hd) rfl rfl (fun _ _ => ⟨rfl, rfl⟩)
  case createInstr =>
    cases hs
    refine build .testNop rfl (fun k hd => ?_) rfl rfl (fun _ _ => ⟨rfl, rfl⟩)
    by_cases hk : k = i
    · subst hk
      simp [InstrThread.Done, InstrThread.fresh] at hd
    · simpa [hk] using hd
  case testNop | testInstr | bindNop | bindInstr =>
    have hp := hw.nopTh (by simp [CallPc.stage])
    have hq := hw.instrTh (by simp [CallPc.stage])
    simp only [hp, hq, reduceCtorEq, if_false] at hs
    cases hs
    exact build _ rfl (fun _ hd => hd) rfl rfl (fun _ _ => ⟨rfl, rfl⟩)
  case wakeNop =>
    rw [hw.nopTh (by simp [CallPc.stage])] at hs
    cases hs
    exact build .wakeInstr rfl (fun _ hd => hd) rfl rfl (fun _ _ => ⟨rfl, rfl⟩)
  case wakeInstr =>
    rw [hw.instrTh (by simp [CallPc.stage])] at hs
    cases hs
    refine build .poll rfl (fun k hd => ?_) rfl rfl (fun _ _ => ⟨rfl, rfl⟩)
    by_cases hk : k = i
    · subst hk
      simpa [InstrThread.Done] using hd
    · simpa [hk] using hd
  case poll =>
    cases hf : s.globals.finish <;> rw [hf] at hs <;> cases hs
    · exact build .sleep rfl (fun _ hd => hd) rfl rfl (fun _ _ => ⟨rfl, rfl⟩)
    · exact build .stopNop rfl (fun _ hd => hd) rfl rfl (fun _ _ => ⟨rfl, rfl⟩)
  case stopNop =>
    rw [hw.nopTh (by simp [CallPc.stage])] at hs
    cases hs
    refine build (.joinNop i) rfl (fun _ hd => hd) ?_ rfl (fun k hk => ?_)
    · simp [nopStoppers, CallPc.stage]
    · simp [nopStoppers, instrStoppers, hk.symm]
  case joinNop j =>
    split at hs <;> cases hs
    exact build .stopInstr rfl (fun _ hd => hd) rfl rfl (fun _ _ => ⟨rfl, rfl⟩)
  case stopInstr =>
    rw [hw.instrTh (by simp [CallPc.stage])] at hs
    cases hs
    refine build (.joinInstr i) rfl (fun k hd => ?_) rfl ?_ (fun k hk => ?_)
    · by_cases hk : k = i
      · subst hk
        simpa [InstrThread.Done] using hd
      · simpa [hk] using hd
    · simp [instrStoppers, CallPc.stage]
    · simp [nopStoppers, instrStoppers, hk.symm]
  case joinInstr j =>
    split at hs <;> cases hs
    exact build .returned rfl (fun _ hd => hd) rfl rfl (fun _ _ => ⟨rfl, rfl⟩)

theorem ledger_initial : Ledger [] (initial : State ι) where
  nopStoppers _ := rfl
  instrStoppers _ := rfl
  finished i hd := by simp [initial, InstrThread.absent, InstrThread.Done] at hd

/-- **What any step adds to the ledger.** -/
theorem ledgerStep {s s' : State ι} {a : Action ι} {es : List (Event ι)} (h : Inv s)
    (hc : Creates s a) (hs : step s a = some (es, s')) : LedgerStep s es s' := by
  cases a with
  | begin i action =>
    obtain ⟨hpc, rfl, rfl⟩ := begin_eq hs
    refine ⟨fun j => ?_, fun j => ?_, fun j hd => Or.inl hd⟩
    all_goals
      by_cases hj : j = i
      · subst hj; simp [hpc, CallPc.stage, nopStoppers, instrStoppers]
      · simp [hj, nopStoppers, instrStoppers]
  | call i err =>
    obtain rfl : err = none := hc
    exact call_ledger h hs
  | nop i =>
    obtain ⟨⟨es', g', n'⟩, hr, he⟩ := Option.map_eq_some_iff.mp hs
    obtain ⟨rfl, rfl⟩ := Prod.mk.inj he
    exact .quiet rfl (fun j => nopF_stops_none hr) (fun j hd => Or.inl hd)
  | instr i env =>
    obtain ⟨⟨es', g', t'⟩, hr, he⟩ := Option.map_eq_some_iff.mp hs
    obtain ⟨rfl, rfl⟩ := Prod.mk.inj he
    refine .quiet rfl (fun j => (instrF_ledger hr).1) (fun j hd => ?_)
    by_cases hj : j = i
    · subst hj
      simp only [setGlobals_instr, setInstr_instr_self] at hd
      rcases (instrF_ledger (j := j) hr).2 hd with hd | hd | ⟨-, hstop⟩
      · exact Or.inl hd
      · exact Or.inr hd
      · have hstage := (h.own j).instrStop.mp hstop
        exact Or.inl ((h.own j).instrDone (by omega))
    · simp only [setGlobals_instr, setInstr_instr_of_ne _ _ hj] at hd
      exact Or.inl hd
  | sigkill i =>
    obtain ⟨rfl, rfl⟩ := Prod.mk.inj (Option.some.inj hs)
    exact .quiet rfl (fun j => ⟨rfl, rfl⟩) (fun j hd => Or.inl hd)

theorem ledger_run {G : State ι → Action ι → Prop} (hG : ∀ s a, G s a → Serial s a ∧ Creates s a)
    {evs : List (Event ι)} {s : State ι} (h : system.Run G initial evs s) :
    Inv s ∧ Ledger evs s := by
  refine h.invariant (I := fun evs s => Inv s ∧ Ledger evs s) ⟨inv_initial, ledger_initial⟩ ?_
  rintro evs s a es s' ⟨hi, hl⟩ hg hs
  obtain ⟨hser, hc⟩ := hG s a hg
  exact ⟨inv_step hi hser hc hs, hl.step (ledgerStep hi hc hs)⟩

/-- **Serialised calls are isolated**: in every run in which a call begins only
while no other call is between its first store and its read of `instr_th` for
`kthread_stop`, every call has its threads to itself. -/
theorem isolated_of_serial {evs : List (Event ι)} {s : State ι}
    (h : system.Run (fun s a => Creates s a ∧ Serial s a) initial evs s) : Isolated evs s := by
  obtain ⟨hi, hl⟩ := ledger_run (fun _ _ hg => ⟨hg.2, hg.1⟩) h
  refine ⟨fun i hr => ?_, fun i hr => ?_, fun i => ?_, fun i hr => ?_⟩
  · exact hl.finished i ((hi.own i).instrDone (by simp [hr, CallPc.stage]))
  · exact ⟨(hi.own i).nopExited (by simp [hr, CallPc.stage]),
      (hi.own i).instrExited (by simp [hr, CallPc.stage])⟩
  · rw [hl.nopStoppers, hl.instrStoppers]
    constructor <;> split <;> simp
  · rw [hl.nopStoppers, hl.instrStoppers, hr]
    exact ⟨rfl, rfl⟩

end Ledger

/-! ## Two schedules -/

/-- Two CPUs, every feature, no buffer. -/
def twoCpus : Env := ⟨2, fun _ => true, 0⟩

/-- One handshake of `buffer_flush_instr_f`, from `reset_count = true` until
`print_count` is false again. -/
def handshake (i : ι) : List (Action ι) :=
  List.replicate 5 (.nop i) ++ List.replicate 104 (.instr i twoCpus) ++
    List.replicate 7 (.nop i) ++ [.instr i twoCpus]

/-- The INSTR thread in one loop, and the NOP thread when it is needed. -/
def visit (i : ι) (l : TimingLoop) : List (Action ι) :=
  match l.guard with
  | .plain => List.replicate 2 (.instr i twoCpus) ++ handshake i
  | .suspendInterrupts =>
    List.replicate 4 (.instr i twoCpus) ++ handshake i ++ List.replicate 2 (.instr i twoCpus)
  | .bootFeature _ => List.replicate 3 (.instr i twoCpus) ++ handshake i
  | .kmalloc => List.replicate 2 (.instr i twoCpus)

/-- The threads of call `i` run from their first statement to `finish = true`. -/
def measure (i : ι) : List (Action ι) :=
  List.replicate 2 (.nop i) ++ List.replicate 7 (.instr i twoCpus) ++ handshake i ++
    List.replicate 2 (.instr i twoCpus) ++ handshake i ++ [.instr i twoCpus]

/-- A call with its threads, from its first statement to its return. -/
def completeCall (i : ι) : List (Action ι) :=
  [.begin i false] ++ List.replicate 11 (.call i none) ++ measure i ++
    List.replicate 2 (.call i none) ++ List.replicate 2 (.nop i) ++
    List.replicate 2 (.call i none) ++ [.instr i twoCpus, .call i none]

/-- The second call creates its threads between the first call's `kthread_create`s
and its test of `nop_th`; the first call wakes them and, once they have set
`finish`, reaches its `kthread_stop(nop_th)`. -/
def overlappingCalls : List (Action Bool) :=
  [.begin false false] ++ List.replicate 5 (.call false none) ++
    [.begin true false] ++ List.replicate 5 (.call true none) ++
    List.replicate 6 (.call false none) ++ measure true ++ List.replicate 2 (.call false none)

set_option maxRecDepth 4000 in
/-- Two calls, one after the other, run to their ends. -/
theorem isolated_of_serial_two_calls : ∃ (evs : List (Event Bool)) (s : State Bool),
    system.Run (fun s a => Creates s a ∧ Serial s a) initial evs s ∧
      (∀ i, (s.call i).pc = .returned) ∧ Isolated evs s := by
  obtain ⟨evs, s, hrun, hret⟩ := System.Run.exists_of_exec system
    (fun s a => Creates s a ∧ Serial s a) initial (completeCall false ++ completeCall true)
    (fun _ s => ∀ i, (s.call i).pc = .returned) (by decide +kernel)
  exact ⟨evs, s, hrun, hret, isolated_of_serial hrun⟩

set_option maxRecDepth 4000 in
/-- **Overlapping calls are not isolated**: the first call stops the NOP thread
that the second one created. -/
theorem overlapping_calls_not_isolated :
    ¬ ∀ (evs : List (Event Bool)) (s : State Bool),
      system.Run Creates initial evs s → Isolated evs s := by
  intro hall
  obtain ⟨evs, s, hrun, hstop⟩ := System.Run.exists_of_exec system Creates initial
    overlappingCalls (fun evs _ => nopStoppers true evs = [false]) (by decide +kernel)
  have hone := ((hall evs s hrun).atMostOnce true).1
  rw [hstop] at hone
  simp at hone

end EcrToolkit.NopTimer
