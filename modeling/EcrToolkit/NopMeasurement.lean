import EcrToolkit.NopHandshake

/-!
# What a call measures

`Measured f` is what a reader of the log relies on: the two threads leave a
handshake log whose numbers are `f` of the `nop`s counted, the loops of each call
are reported in the order of its table, none but the loops with missing CPU
features is left out, and `0` is reported only for want of the buffer.

`measured_wrap` proves it of every run of serialised calls on at least two CPUs,
with `f` the reduction modulo `2 ^ 64`; a SIGKILL changes nothing.  The numbers are
not the numbers of `nop`s themselves: `not_measured_exactly` is the run in which
`count` overflows between two handshake steps.
-/
namespace EcrToolkit.NopTimer

open Transitions

variable {ι : Type}

/-- The loops call `i` has measured or reported as `0`, in the order of the log. -/
def reported [DecidableEq ι] (i : ι) (evs : List (Event ι)) : List String :=
  evs.filterMap fun
    | .enter j name | .zero j name => if j = i then some name else none
    | _ => none

/-- Before its loop is measured or reported as `0`. -/
def LoopPc.unreported : LoopPc → Bool
  | .irqSave | .irqDisable | .bootCpuHas _ | .testVmemAligned | .testOnline | .zero
  | .setReset => true
  | _ => false

/-- The loops the INSTR thread has still to report. -/
def InstrPc.todo (action : Bool) : InstrPc → List TimingLoop
  | .atLoop l p rest => if p.unreported then l :: rest else rest
  | .setFinish | .doExit | .exited => []
  | .notCreated | .created | .allowSignal | .aggregating => nopLoops action

/-- Where the wrappers of the timing macros send the INSTR thread. -/
def InstrPc.Guarded : InstrPc → Prop
  | .atLoop l .testVmemAligned _ | .atLoop l .zero _ => l.guard = .kmalloc
  | .atLoop l (.bootCpuHas f) _ => l.guard = .bootFeature f
  | _ => True

theorem nextLoop_todo (action : Bool) (ls : List TimingLoop) :
    (nextLoop ls).todo action = ls ∧ (nextLoop ls).Guarded := by
  cases ls with
  | nil => exact ⟨rfl, trivial⟩
  | cons l ls =>
    rw [nextLoop, entry]
    cases hg : l.guard
    case plain | suspendInterrupts => exact ⟨rfl, trivial⟩
    case bootFeature f => exact ⟨rfl, hg⟩
    case kmalloc => exact ⟨rfl, hg⟩

theorem afterBody_todo (action : Bool) (l : TimingLoop) (ls : List TimingLoop) :
    (afterBody l ls).todo action = ls ∧ (afterBody l ls).Guarded := by
  unfold afterBody
  split
  · exact ⟨rfl, trivial⟩
  · exact nextLoop_todo action ls

section ProgramOrder
variable [DecidableEq ι] {i : ι} {g g' : Globals ι} {es : List (Event ι)}

/-- One statement of the INSTR thread reports nothing, or the next loop of the
table, or passes over a loop whose CPU feature is missing. -/
structure ReportStep (i : ι) (t : InstrPc) (action : Bool) (es : List (Event ι)) (t' : InstrPc) :
    Prop where
  guarded : t'.Guarded
  others : ∀ j, j ≠ i → reported j es = []
  moves : (t'.todo action = t.todo action ∧ reported i es = []) ∨
    ∃ l, t.todo action = l :: t'.todo action ∧
      (reported i es = [l.printName] ∨ reported i es = [] ∧ ∃ f, l.guard = .bootFeature f)
  zeros : ∀ j name, Event.zero j name ∈ es → j = i ∧
    ∃ l ∈ t.todo action, l.printName = name ∧ l.guard = .kmalloc

theorem nopTimingLoop_reports {env : Env} {t : InstrThread} {l : TimingLoop} {p : LoopPc}
    {rest : List TimingLoop} (action : Bool) (hcpu : 2 ≤ env.numOnlineCpus)
    (hg : (InstrPc.atLoop l p rest).Guarded) :
    let r := nopTimingLoop i g env t l p rest
    ReportStep i (.atLoop l p rest) action r.1 r.2.2.pc := by
  have silent : ∀ {t t' : InstrPc}, t'.Guarded → t'.todo action = t.todo action →
      ReportStep i t action ([] : List (Event ι)) t' :=
    fun hg ht => ⟨hg, fun _ _ => rfl, Or.inl ⟨ht, rfl⟩, by simp⟩
  have quiet : ∀ {t t' : InstrPc} {e : Event ι}, t'.Guarded → t'.todo action = t.todo action →
      (∀ j, reported j [e] = []) → (∀ j name, e ≠ .zero j name) →
      ReportStep i t action [e] t' := by
    intro t t' e hg ht hr hz
    refine ⟨hg, fun j _ => hr j, Or.inl ⟨ht, hr i⟩, fun j name hmem => ?_⟩
    exact absurd (List.mem_singleton.mp hmem).symm (hz j name)
  obtain ⟨hnt, hng⟩ := nextLoop_todo action rest
  obtain ⟨hat, hag⟩ := afterBody_todo action l rest
  unfold nopTimingLoop
  cases p
  case irqSave | irqDisable | irqRestore => exact silent trivial rfl
  case bootCpuHas f =>
    cases hb : env.bootCpuHas f
    · simp only [hb, Bool.false_eq_true, if_false]
      refine ⟨hng, fun _ _ => rfl, Or.inr ⟨l, ?_, Or.inr ⟨rfl, f, hg⟩⟩, by simp⟩
      rw [hnt]
      rfl
    · simp only [hb, if_true]
      exact silent trivial rfl
  case testVmemAligned =>
    by_cases hv : env.vmemAligned ≠ 0
    · simp only [if_pos hv]; exact silent trivial rfl
    · simp only [if_neg hv]; exact silent hg rfl
  case testOnline => simp only [if_pos hcpu]; exact silent trivial rfl
  case zero =>
    refine ⟨hag, fun j hj => ?_, Or.inr ⟨l, ?_, Or.inl ?_⟩, ?_⟩
    · simp [reported, hj.symm]
    · rw [hat]; rfl
    · simp [reported]
    · intro j name hmem
      cases List.mem_singleton.mp hmem
      exact ⟨rfl, l, List.mem_cons_self, rfl, hg⟩
  case setReset =>
    refine ⟨trivial, fun j hj => ?_, Or.inr ⟨l, rfl, Or.inl ?_⟩, by simp⟩
    · simp [reported, hj.symm]
    · simp [reported]
  case spinReset =>
    cases g.resetCount
    · exact quiet trivial rfl (fun _ => rfl) (by simp)
    · exact silent trivial rfl
  case spinResetStop =>
    cases t.shouldStop
    · exact silent trivial rfl
    · exact quiet trivial rfl (fun _ => rfl) (by simp)
  case forCall left =>
    cases left with
    | zero => exact quiet trivial rfl (fun _ => rfl) (by simp)
    | succ left => exact silent trivial rfl
  case label | setPrint => exact quiet trivial rfl (fun _ => rfl) (by simp)
  case spinPrint =>
    cases g.printCount
    · exact quiet hag hat (fun _ => rfl) (by simp)
    · exact silent trivial rfl
  case spinPrintStop =>
    cases t.shouldStop
    · exact silent trivial rfl
    · exact quiet hag hat (fun _ => rfl) (by simp)
  case irqEnable => exact silent hng hnt

/-- The INSTR thread reports its loops in order. -/
theorem instrF_reports {env : Env} {t t' : InstrThread}
    (h : instrF i g env t = some (es, g', t')) (hcpu : 2 ≤ env.numOnlineCpus)
    (hg : t.pc.Guarded) (hcreated : t.pc = .created → t.shouldStop = false) :
    ReportStep i t.pc t.action es t'.pc := by
  unfold instrF at h
  split at h
  case isFalse => cases h
  case isTrue =>
    cases hpc : t.pc <;> simp only [hpc] at h hg hcreated
    case notCreated | exited => cases h
    case atLoop l p rest =>
      have hr := nopTimingLoop_reports (i := i) (g := g) (t := t) t.action hcpu hg
      rw [Option.some.inj h] at hr
      exact hr
    case created =>
      simp only [hcreated trivial, Bool.false_eq_true, if_false] at h
      cases h
      exact ⟨trivial, fun _ _ => rfl, Or.inl ⟨rfl, rfl⟩, by simp⟩
    case aggregating =>
      cases h
      obtain ⟨htodo, hguard⟩ := nextLoop_todo t.action (nopLoops t.action)
      exact ⟨hguard, fun _ _ => rfl, Or.inl ⟨htodo, rfl⟩, by simp⟩
    all_goals
      cases h
      exact ⟨trivial, fun _ _ => rfl, Or.inl ⟨rfl, rfl⟩, by simp⟩

/-- The NOP thread reports no loop. -/
theorem nopF_reports_nothing {pending : Option Bool} {n n' : NopThread}
    (h : nopF i g pending n = some (es, g', n')) (j : ι) :
    reported j es = [] ∧ ∀ name, Event.zero j name ∉ es := by
  unfold nopF at h
  split at h
  case isFalse => cases h
  case isTrue =>
    cases hpc : n.pc <;> simp only [hpc] at h
    case notCreated | exited | faulted => cases h
    case testSignal => rcases pending with _ | _ | _ <;> cases h <;> exact ⟨rfl, by simp⟩
    all_goals
      cases h
      exact ⟨rfl, by simp⟩

/-- Neither does anything the threads do not do. -/
theorem reported_of_silent (h : threadEvents es = []) (j : ι) :
    reported j es = [] ∧ ∀ name, Event.zero j name ∉ es := by
  have hall : ∀ e ∈ es, ¬ e.ofThreads = true := List.filter_eq_nil_iff.mp h
  refine ⟨?_, fun name hmem => hall _ hmem rfl⟩
  refine List.filterMap_eq_nil_iff.mpr fun e he => ?_
  have hno := hall e he
  cases e <;> first | rfl | exact absurd rfl hno

theorem mem_reported_of_zero {evs : List (Event ι)} {name : String}
    (h : Event.zero i name ∈ evs) : name ∈ reported i evs :=
  List.mem_filterMap.mpr ⟨_, h, if_pos rfl⟩

theorem reported_append (j : ι) (evs es : List (Event ι)) :
    reported j (evs ++ es) = reported j evs ++ reported j es := List.filterMap_append

/-- What call `i` has reported, seen from where its INSTR thread is. -/
structure Progress (i : ι) (evs : List (Event ι)) (t : InstrPc) (action : Bool) : Prop where
  past : ∃ past, past ++ t.todo action = nopLoops action ∧
    (reported i evs).Sublist (past.map (·.printName)) ∧
    ∀ l ∈ past, (∀ f, l.guard ≠ .bootFeature f) → l.printName ∈ reported i evs
  guarded : t.Guarded
  zeros : ∀ name, Event.zero i name ∈ evs →
    ∃ l ∈ nopLoops action, l.printName = name ∧ l.guard = .kmalloc

/-- A step that reports nothing for call `i`. -/
theorem Progress.silent {evs : List (Event ι)} {t : InstrPc} {action : Bool}
    (h : Progress i evs t action) (hr : reported i es = [])
    (hz : ∀ name, Event.zero i name ∉ es) : Progress i (evs ++ es) t action := by
  obtain ⟨hpast, hg, hzeros⟩ := h
  refine ⟨?_, hg, fun name hmem => ?_⟩
  · rw [reported_append, hr, List.append_nil]
    exact hpast
  · rcases List.mem_append.mp hmem with hmem | hmem
    · exact hzeros name hmem
    · exact absurd hmem (hz name)

/-- A step of the INSTR thread of call `i`. -/
theorem Progress.step {evs : List (Event ι)} {t t' : InstrPc} {action : Bool}
    (h : Progress i evs t action) (hs : ReportStep i t action es t') :
    Progress i (evs ++ es) t' action := by
  obtain ⟨⟨past, hpast, hsub, hall⟩, hg, hzeros⟩ := h
  refine ⟨?_, hs.guarded, fun name hmem => ?_⟩
  · rw [reported_append]
    rcases hs.moves with ⟨htodo, hr⟩ | ⟨l, htodo, hr⟩
    · rw [hr, List.append_nil, htodo]
      exact ⟨past, hpast, hsub, hall⟩
    · refine ⟨past ++ [l], ?_, ?_, ?_⟩
      · rw [List.append_assoc, List.singleton_append, ← htodo, hpast]
      · rw [List.map_append]
        refine hsub.append ?_
        rcases hr with hr | ⟨hr, -⟩ <;> rw [hr] <;> simp
      · intro l' hl' hf
        rcases List.mem_append.mp hl' with hl' | hl'
        · exact List.mem_append_left _ (hall l' hl' hf)
        · obtain rfl := List.mem_singleton.mp hl'
          rcases hr with hr | ⟨-, f, hguard⟩
          · rw [hr]
            exact List.mem_append_right _ List.mem_cons_self
          · exact absurd hguard (hf f)
  · rcases List.mem_append.mp hmem with hmem | hmem
    · exact hzeros name hmem
    · obtain ⟨-, l, hl, hname⟩ := hs.zeros i name hmem
      refine ⟨l, ?_, hname⟩
      rw [← hpast]
      exact List.mem_append_right _ hl

/-- A call that has created no INSTR thread has reported nothing. -/
theorem Progress.reported_eq_nil {evs : List (Event ι)} {action : Bool}
    (h : Progress i evs .notCreated action) : reported i evs = [] := by
  obtain ⟨past, hpast, hsub, -⟩ := h.past
  have hnil : past = [] := by
    have hlen := congrArg List.length hpast
    simp only [InstrPc.todo, List.length_append] at hlen
    exact List.eq_nil_of_length_eq_zero (by omega)
  rw [hnil, List.map_nil] at hsub
  exact List.sublist_nil.mp hsub

theorem Progress.created {evs : List (Event ι)} {action action' : Bool}
    (h : Progress i evs .notCreated action) : Progress i evs .created action' := by
  have hrep := h.reported_eq_nil
  refine ⟨⟨[], rfl, by rw [hrep]; simp, by simp⟩, trivial, fun name hmem => ?_⟩
  have hmem' := mem_reported_of_zero hmem
  rw [hrep] at hmem'
  cases hmem'

/-- **Every step keeps every call's progress.** -/
theorem progress_step {s s' : State ι} {a : Action ι} {evs : List (Event ι)} (hi : Inv s)
    (h : ∀ i, Progress i evs (s.instr i).pc (s.instr i).action) (hc : Creates s a)
    (hcpu : TwoCpus s a) (hs : step s a = some (es, s')) (i : ι) :
    Progress i (evs ++ es) (s'.instr i).pc (s'.instr i).action := by
  cases a with
  | begin j action =>
    obtain ⟨-, rfl, rfl⟩ := begin_eq hs
    exact (h i).silent rfl (by simp)
  | call j err =>
    obtain rfl : err = none := hc
    obtain ⟨hr, hz⟩ := reported_of_silent (call_events hs) i
    refine Progress.silent ?_ hr hz
    by_cases hij : i = j
    · subst hij
      obtain ⟨-, -, -, -, -, -, -, ht, ha⟩ := call_step hi hs
      have hi' := h i
      rcases ht with ht | ⟨ht, ht'⟩
      · rcases ha with ha | ⟨hpc, hpc'⟩
        · rw [ht, ha]; exact hi'
        · rw [ht, hpc] at hpc'; cases hpc'
      · rw [ht] at hi'
        rw [ht']
        exact hi'.created
    · rw [(inv_call hi rfl hs).frame.instr i hij]
      exact h i
  | nop j =>
    obtain ⟨⟨es', g', n'⟩, hr, he⟩ := Option.map_eq_some_iff.mp hs
    obtain ⟨rfl, rfl⟩ := Prod.mk.inj he
    obtain ⟨hr', hz⟩ := nopF_reports_nothing hr i
    exact (h i).silent hr' hz
  | instr j env =>
    obtain ⟨⟨es', g', t'⟩, hr, he⟩ := Option.map_eq_some_iff.mp hs
    obtain ⟨rfl, rfl⟩ := Prod.mk.inj he
    have hcreated : (s.instr j).pc = .created → (s.instr j).shouldStop = false := by
      intro hpc
      refine Bool.eq_false_iff.mpr fun hstop => ?_
      have h16 := (hi.own j).instrStop.mp hstop
      rcases (hi.own j).instrDone (by omega) with hd | hd <;> rw [hpc] at hd <;> cases hd
    have hrep := instrF_reports hr hcpu (h j).guarded hcreated
    by_cases hij : i = j
    · subst hij
      simp only [setGlobals_instr, setInstr_instr_self]
      rw [(instrF_step hr).action]
      exact (h i).step hrep
    · simp only [setGlobals_instr, setInstr_instr_of_ne _ _ hij]
      refine (h i).silent (hrep.others i hij) fun name hmem => hij (hrep.zeros i name hmem).1
  | sigkill j =>
    obtain ⟨rfl, rfl⟩ := Prod.mk.inj (Option.some.inj hs)
    rw [List.append_nil]
    exact h i

end ProgramOrder

/-- **What a reader of the log relies on.** -/
structure Measured [DecidableEq ι] (f : Nat → Nat) (evs : List (Event ι)) (s : State ι) :
    Prop where
  /-- Every measurement is a round: its label is followed by one number, which is `f`
  of the number of `nop`s from the acknowledged reset to the read of `count`. -/
  log : HandshakeLog f (threadEvents evs)
  /-- The loops of a call are reported in the order of its table. -/
  order : ∀ i, (reported i evs).Sublist ((nopLoops (s.call i).action).map (·.printName))
  /-- `0` is reported only for loops that need the buffer. -/
  zeros : ∀ i name, Event.zero i name ∈ evs →
    ∃ l ∈ nopLoops (s.call i).action, l.printName = name ∧ l.guard = .kmalloc
  /-- A call that has returned has left out only loops with a CPU feature check. -/
  complete : ∀ i, (s.call i).pc = .returned → ∀ l ∈ nopLoops (s.call i).action,
    (∀ f, l.guard ≠ .bootFeature f) → l.printName ∈ reported i evs

section Runs
variable [DecidableEq ι]

theorem progress_run {G : State ι → Action ι → Prop}
    (hG : ∀ s a, G s a → Creates s a ∧ Serial s a ∧ TwoCpus s a) {evs : List (Event ι)}
    {s : State ι} (h : system.Run G initial evs s) :
    Inv s ∧ ∀ i, Progress i evs (s.instr i).pc (s.instr i).action := by
  refine h.invariant
    (I := fun evs s => Inv s ∧ ∀ i, Progress i evs (s.instr i).pc (s.instr i).action)
    ⟨inv_initial, fun i => ⟨⟨[], rfl, List.Sublist.refl _, by simp⟩, trivial, by simp⟩⟩ ?_
  rintro evs s a es s' ⟨hi, hp⟩ hg hs
  obtain ⟨hc, hser, hcpu⟩ := hG s a hg
  exact ⟨inv_step hi hser hc hs, progress_step hi hp hc hcpu hs⟩

/-- **Serialised calls measure right, modulo `2 ^ 64`**: every run of calls made one
after another on at least two CPUs, whatever the interleaving of their threads. -/
theorem measured_wrap {evs : List (Event ι)} {s : State ι}
    (h : system.Run (fun s a => Creates s a ∧ Serial s a ∧ TwoCpus s a) initial evs s) :
    Measured wrap evs s := by
  obtain ⟨hi, hp⟩ := progress_run (fun _ _ hg => hg) h
  -- the thread of a call has the call's action, unless it has reported nothing
  have haction : ∀ i, (s.instr i).action = (s.call i).action ∨ reported i evs = [] := by
    intro i
    by_cases h6 : 6 ≤ (s.call i).pc.stage
    · exact Or.inl ((hi.own i).action h6)
    · right
      have hn := hp i
      rw [(hi.own i).instrCreated.mpr (by omega)] at hn
      exact hn.reported_eq_nil
  refine ⟨handshakeLog_run (fun _ _ hg => ⟨hg.2.1, hg.1⟩) h, fun i => ?_, fun i name hz => ?_,
    fun i hret l hl hf => ?_⟩
  · rcases haction i with ha | hnil
    · obtain ⟨past, hpast, hsub, -⟩ := (hp i).past
      rw [← ha, ← hpast, List.map_append]
      exact hsub.trans (List.sublist_append_left _ _)
    · rw [hnil]
      exact List.nil_sublist _
  · rcases haction i with ha | hnil
    · rw [← ha]
      exact (hp i).zeros name hz
    · have hmem := mem_reported_of_zero hz
      rw [hnil] at hmem
      cases hmem
  · obtain ⟨past, hpast, -, hall⟩ := (hp i).past
    have ho := hi.own i
    rw [ho.instrExited (by simp [hret, CallPc.stage]), ho.action (by simp [hret, CallPc.stage])]
      at hpast
    rw [← hpast] at hl
    exact hall l (by simpa [InstrPc.todo] using hl) hf

end Runs

set_option maxRecDepth 4000 in
/-- Two calls, one after the other, run to their ends. -/
theorem measured_wrap_two_calls : ∃ (evs : List (Event Bool)) (s : State Bool),
    (∀ i, (s.call i).pc = .returned) ∧ Measured wrap evs s := by
  obtain ⟨evs, s, hrun, hret⟩ := System.Run.exists_of_exec system
    (fun s a => Creates s a ∧ Serial s a ∧ TwoCpus s a) initial
    (completeCall false ++ completeCall true) (fun _ s => ∀ i, (s.call i).pc = .returned)
    (by decide +kernel)
  exact ⟨evs, s, hret, measured_wrap hrun⟩

/-! ## The overflow of `count` -/

/-- The NOP thread of call `i` runs on with no flag set and no one stopping it. -/
structure Idling (s : State ι) (i : ι) : Prop where
  thread : s.nop i = ⟨.testStop, true, false, false⟩
  nopTh : s.globals.nopTh = .task i
  reset : s.globals.resetCount = false
  print : s.globals.printCount = false

/-- `s` with `n` more counted. -/
def State.addCount (s : State ι) (n : Nat) : State ι :=
  s.setGlobals { s.globals with count := s.globals.count + BitVec.ofNat 64 n }

section Overflow
variable [DecidableEq ι] {s : State ι} {i : ι} {G : State ι → Action ι → Prop}

/-- `s` with the NOP thread of call `i` running at `p` over the globals `g`. -/
def State.nopAt (s : State ι) (i : ι) (p : NopPc) (g : Globals ι) : State ι :=
  (s.setNop i ⟨p, true, false, false⟩).setGlobals g

theorem step_nopAt {p p' : NopPc} {g g' : Globals ι} {es : List (Event ι)}
    (hth : g.nopTh = .task i)
    (hstep : nopF i g (some false) ⟨p, true, false, false⟩ =
      some (es, g', ⟨p', true, false, false⟩)) :
    system.step (s.nopAt i p g) (.nop i) = some (es, s.nopAt i p' g') := by
  simp only [system, step, State.nopAt, setGlobals_globals, hth, State.signalPending,
    setGlobals_nop, setNop_nop_self, hstep, Option.map_some]
  simp [State.setNop, State.setGlobals]

/-- Once around the loop of `nop_f`. -/
theorem Idling.cycle (h : Idling s i) (hG : ∀ s, G s (.nop i)) :
    system.Run G s [.nop i] (s.addCount 1) := by
  obtain ⟨ht, hth, hr, hp⟩ := h
  have hself : ∀ g, s.nopAt i .testStop g = s.setGlobals g := by
    intro g
    rw [State.nopAt, State.setNop, ← ht, Function.update_eq_self]
  have h1 : system.step (s.nopAt i .testStop s.globals) (.nop i) =
      some ([], s.nopAt i .testSignal s.globals) := step_nopAt hth rfl
  have h2 : system.step (s.nopAt i .testSignal s.globals) (.nop i) =
      some ([], s.nopAt i .testReset s.globals) := step_nopAt hth rfl
  have h3 : system.step (s.nopAt i .testReset s.globals) (.nop i) =
      some ([], s.nopAt i .testPrint s.globals) := step_nopAt hth (by simp [nopF, hr])
  have h4 : system.step (s.nopAt i .testPrint s.globals) (.nop i) =
      some ([], s.nopAt i .nop s.globals) := step_nopAt hth (by simp [nopF, hp])
  have h5 : system.step (s.nopAt i .nop s.globals) (.nop i) =
      some ([.nop i], s.nopAt i .loadCount s.globals) := step_nopAt hth rfl
  have h6 : system.step (s.nopAt i .loadCount s.globals) (.nop i) =
      some ([], s.nopAt i (.storeCount s.globals.count) s.globals) := step_nopAt hth rfl
  have h7 : system.step (s.nopAt i (.storeCount s.globals.count) s.globals) (.nop i) =
      some ([], s.nopAt i .testStop { s.globals with count := s.globals.count + 1 }) :=
    step_nopAt hth rfl
  have hrun : system.Run G (s.nopAt i .testStop s.globals) _ _ :=
    ((((((Transitions.System.Run.start.step (hG _) h1).step (hG _) h2).step (hG _) h3).step
      (hG _) h4).step (hG _) h5).step (hG _) h6).step (hG _) h7
  rw [hself, hself] at hrun
  exact hrun

theorem Idling.cycles (h : Idling s i) (hG : ∀ s, G s (.nop i)) (n : Nat) :
    system.Run G s (nops i n) (s.addCount n) := by
  induction n with
  | zero =>
    have hs : s.addCount 0 = s := by simp [State.addCount, State.setGlobals]
    rw [hs]
    exact .start
  | succ n ih =>
    have hn : Idling (s.addCount n) i := ⟨h.thread, h.nopTh, h.reset, h.print⟩
    have hs : (s.addCount n).addCount 1 = s.addCount (n + 1) := by
      simp [State.addCount, State.setGlobals, BitVec.ofNat_add, BitVec.add_assoc]
    rw [nops_succ, ← hs]
    exact ih.trans (hn.cycle hG)

end Overflow

/-- Calls one after another, on at least two CPUs, whose threads are created and not killed. -/
def Undisturbed [DecidableEq ι] (s : State ι) (a : Action ι) : Prop :=
  Creates s a ∧ Serial s a ∧ TwoCpus s a ∧ NoKill s a

instance (s : State Unit) (a : Action Unit) : Decidable (Undisturbed s a) :=
  inferInstanceAs (Decidable (_ ∧ _))

/-- A call until the INSTR thread is inside its first measured loop and the NOP
thread has executed one `nop`. -/
def intoLoop : List (Action Unit) :=
  [.begin () false] ++ List.replicate 11 (.call () none) ++ List.replicate 2 (.nop ()) ++
    List.replicate 7 (.instr () twoCpus) ++ List.replicate 5 (.nop ()) ++
    [.instr () twoCpus] ++ List.replicate 4 (.nop ())

/-- From there to the record of `count`. -/
def outOfLoop : List (Action Unit) :=
  List.replicate 103 (.instr () twoCpus) ++ List.replicate 6 (.nop ())

set_option maxRecDepth 4000 in
/-- **The numbers are not exact**: after `2 ^ 64` turns of the NOP thread inside one
`FUNCTION_CALL` loop, `count` is what it was before them. -/
theorem not_measured_exactly :
    ¬ ∀ (evs : List (Event Unit)) (s : State Unit),
      system.Run Undisturbed initial evs s → Measured id evs s := by
  intro hall
  obtain ⟨evs, s, hrun, hidle, hread, hrest⟩ := System.Run.exists_of_exec system Undisturbed
    initial intoLoop
    (fun evs s => (s.nop () = ⟨.testStop, true, false, false⟩ ∧ s.globals.nopTh = .task () ∧
        s.globals.resetCount = false ∧ s.globals.printCount = false) ∧
      (meter id).readFrom .idle (threadEvents evs) = some (.counting () "SFENCE" .inCall 1) ∧
      ((system.exec Undisturbed s outOfLoop).any fun r => decide
        ((meter id).readFrom (.counting () "SFENCE" .inCall (1 + 2 ^ 64))
          (threadEvents r.1) = none)) = true)
    (by decide +kernel)
  obtain ⟨es, t, hrun', hnone⟩ := System.Run.exists_of_exec system Undisturbed s outOfLoop
    (fun es _ => (meter id).readFrom (.counting () "SFENCE" .inCall (1 + 2 ^ 64))
      (threadEvents es) = none) hrest
  have hcycles : system.Run Undisturbed s (nops () (2 ^ 64)) s := by
    have hturns := Idling.cycles (G := Undisturbed) ⟨hidle.1, hidle.2.1, hidle.2.2.1, hidle.2.2.2⟩
      (fun _ => ⟨trivial, trivial, trivial, trivial⟩) (2 ^ 64)
    have hs : s.addCount (2 ^ 64) = s := by simp [State.addCount, State.setGlobals]
    rwa [hs] at hturns
  have hlog := (hall _ _ ((hrun.trans hcycles).trans hrun')).log
  obtain ⟨m, hm⟩ := meter_accepts_iff.mpr hlog
  rw [Monitor.Accepts, threadEvents_append, threadEvents_append, threadEvents_nops,
    Monitor.readFrom_append, Monitor.readFrom_append] at hm
  have hinit : (meter id).readFrom (meter id).init (threadEvents evs) =
      some (.counting () "SFENCE" .inCall 1) := hread
  rw [hinit, Option.bind_some, read_nops_counting, Option.bind_some, hnone] at hm
  cases hm

end EcrToolkit.NopTimer
