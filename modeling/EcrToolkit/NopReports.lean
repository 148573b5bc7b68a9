import EcrToolkit.NopLog
import EcrToolkit.NopMeasurement
import EcrToolkit.WallRun

/-!
# The threads log runs

`NopRun` says what the log of a run looks like: a heading, and a report for every loop
of the table that is executed, in two adjacent records or in one.  Here that is read off
the threads: whatever their interleaving, serialised calls log one `NopRun` after another
(`runs_logged`).  `Marks` keeps the order in which the reports begin; that the number
follows its label is the handshake.
-/
namespace EcrToolkit.NopTimer

open Transitions

variable {ι : Type}

/-! ## Records and reports -/

/-- `pr_info("Aggregating ...\n")`. -/
def aggregating (action : Bool) : Record := if action then .aggregatingNop else .aggregatingNopFl

/-- The record of an event. -/
def Event.record? : Event ι → Option Record
  | .header _ action => some (aggregating action)
  | .zero _ name => some (.nopZero name)
  | .label _ name => some (.nopLabel name)
  | .count _ n => some (.count n)
  | _ => none

/-- What a run logs. -/
def recordsOf (evs : List (Event ι)) : List Record := evs.filterMap Event.record?

/-- The beginning of the reports of a call, or of one report. -/
inductive Mark
  | heading (action : Bool)
  | report (name : String)

/-- Where a call logs its heading or begins a report. -/
def Event.mark? : Event ι → Option (ι × Mark)
  | .header i action => some (i, .heading action)
  | .enter i name | .zero i name => some (i, .report name)
  | _ => none

def marks (evs : List (Event ι)) : List (ι × Mark) := evs.filterMap Event.mark?

/-- A heading, or a report. -/
inductive Item
  | heading (action : Bool)
  | report (r : NopReport)

def Item.records : Item → List Record
  | .heading action => [aggregating action]
  | .report r => r.records

def Item.mark : Item → Mark
  | .heading action => .heading action
  | .report r => .report r.name

theorem recordsOf_append (evs es : List (Event ι)) :
    recordsOf (evs ++ es) = recordsOf evs ++ recordsOf es := List.filterMap_append

theorem marks_append (evs es : List (Event ι)) : marks (evs ++ es) = marks evs ++ marks es :=
  List.filterMap_append

theorem recordsOf_nops (i : ι) (n : Nat) : recordsOf (nops i n) = [] :=
  List.filterMap_eq_nil_iff.mpr fun _ he => List.eq_of_mem_replicate he ▸ rfl

theorem marks_nops (i : ι) (n : Nat) : marks (nops i n) = [] :=
  List.filterMap_eq_nil_iff.mpr fun _ he => List.eq_of_mem_replicate he ▸ rfl

/-- A round is one report. -/
theorem recordsOf_round (f : Nat → Nat) (i : ι) (name : String) (k : Nops) :
    recordsOf (round f i name k) = (NopReport.counted name (f k.counted)).records := by
  have hnops : ∀ n, (nops i n).filterMap Event.record? = [] := recordsOf_nops i
  simp only [recordsOf, round, answered, printing, labelled, called, inCall, armed, requested,
    List.filterMap_append, List.filterMap_cons, hnops, Event.record?]
  rfl

theorem marks_round (f : Nat → Nat) (i : ι) (name : String) (k : Nops) :
    marks (round f i name k) = [(i, .report name)] := by
  have hnops : ∀ n, (nops i n).filterMap Event.mark? = [] := marks_nops i
  simp only [marks, round, answered, printing, labelled, called, inCall, armed, requested,
    List.filterMap_append, List.filterMap_cons, hnops, Event.mark?]
  rfl

/-- **Rounds are reports**, with a heading here and there; a number reported is the one the
round has counted. -/
theorem Rounds.items {f : Nat → Nat} {evs : List (Event ι)} (h : Rounds f evs) :
    ∃ items : List (ι × Item), recordsOf evs = items.flatMap (·.2.records) ∧
      marks evs = items.map (fun x => (x.1, x.2.mark)) ∧
        ∀ i name n, (i, .report (.counted name n)) ∈ items →
          ∃ k, NopTimer.round f i name k <:+: evs ∧ n = f k.counted := by
  induction h with
  | nil => exact ⟨[], rfl, rfl, nofun⟩
  | @outside evs e _ hout ih =>
    obtain ⟨items, hrecords, hmarks, hcounted⟩ := ih
    rw [recordsOf_append, marks_append, hrecords, hmarks]
    have hearlier : ∀ i name n, (i, .report (.counted name n)) ∈ items →
        ∃ k, NopTimer.round f i name k <:+: evs ++ [e] ∧ n = f k.counted := by
      intro i name n hmem
      obtain ⟨k, hk, hn⟩ := hcounted i name n hmem
      exact ⟨k, hk.trans (List.prefix_append evs [e]).isInfix, hn⟩
    cases e with
    | header i action =>
      refine ⟨items ++ [(i, .heading action)], by simp; rfl, by simp; rfl, ?_⟩
      intro j name n hmem
      rcases List.mem_append.mp hmem with hmem | hmem
      · exact hearlier j name n hmem
      · cases List.mem_singleton.mp hmem
    | zero i name =>
      refine ⟨items ++ [(i, .report (.single name))], by simp; rfl, by simp; rfl, ?_⟩
      intro j name' n hmem
      rcases List.mem_append.mp hmem with hmem | hmem
      · exact hearlier j name' n hmem
      · cases List.mem_singleton.mp hmem
    | nop i => exact ⟨items, List.append_nil _, List.append_nil _, hearlier⟩
    | finish i => exact ⟨items, List.append_nil _, List.append_nil _, hearlier⟩
    | _ => cases hout
  | @round evs i name k _ ih =>
    obtain ⟨items, hrecords, hmarks, hcounted⟩ := ih
    refine ⟨items ++ [(i, .report (.counted name (f k.counted)))], ?_, ?_, ?_⟩
    · rw [recordsOf_append, hrecords, recordsOf_round, List.flatMap_append,
        List.flatMap_singleton]
      rfl
    · rw [marks_append, hmarks, marks_round, List.map_append]
      rfl
    · intro j name' n hmem
      rcases List.mem_append.mp hmem with hmem | hmem
      · obtain ⟨k', hk, hn⟩ := hcounted j name' n hmem
        exact ⟨k', hk.trans (List.prefix_append evs _).isInfix, hn⟩
      · cases List.mem_singleton.mp hmem
        exact ⟨k, (List.suffix_append evs _).isInfix, rfl⟩

/-! ## The order of the reports -/

section ProgramOrder
variable (features : Feature → Bool)

/-- The heading and the reports that call `i` has still to begin. -/
def InstrPc.unlogged (action : Bool) (t : InstrPc) : List Mark :=
  let reports := ((t.todo action).filter (·.executed features)).map fun l => .report l.printName
  match t with
  | .notCreated | .created | .allowSignal | .aggregating => .heading action :: reports
  | _ => reports

/-- All that a call begins. -/
def callMarks (c : ι × Bool) : List (ι × Mark) :=
  (InstrPc.notCreated.unlogged features c.2).map fun m => (c.1, m)

/-- Past the check for a CPU feature, the loop is one that is executed. -/
def InstrPc.Checked : InstrPc → Prop
  | .atLoop l (.bootCpuHas f) _ => l.guard = .bootFeature f
  | .atLoop l p _ => p.unreported = true → l.executed features = true
  | _ => True

theorem nextLoop_unlogged (action : Bool) (ls : List TimingLoop) :
    (nextLoop ls).Checked features ∧ (nextLoop ls).unlogged features action =
      (ls.filter (·.executed features)).map fun l => .report l.printName := by
  obtain ⟨htodo, -⟩ := nextLoop_todo action ls
  cases ls with
  | nil => exact ⟨trivial, rfl⟩
  | cons l ls =>
    have hunlogged : (nextLoop (l :: ls)).unlogged features action =
        (((nextLoop (l :: ls)).todo action).filter (·.executed features)).map
          fun l => .report l.printName := rfl
    rw [hunlogged, htodo]
    refine ⟨?_, rfl⟩
    rw [nextLoop, entry]
    have hplain : (∀ f, l.guard ≠ .bootFeature f) → l.executed features = true := by
      intro h
      unfold TimingLoop.executed
      cases hg : l.guard with
      | bootFeature f => exact absurd hg (h f)
      | _ => rfl
    cases hg : l.guard with
    | bootFeature f => exact hg
    | _ =>
      refine fun _ => hplain fun f => ?_
      rw [hg]
      intro heq
      cases heq

theorem afterBody_unlogged (action : Bool) (l : TimingLoop) (ls : List TimingLoop) :
    (afterBody l ls).Checked features ∧ (afterBody l ls).unlogged features action =
      (ls.filter (·.executed features)).map fun l => .report l.printName := by
  unfold afterBody
  split
  · exact ⟨nofun, rfl⟩
  · exact nextLoop_unlogged features action ls

variable {features} {i : ι} {g g' : Globals ι} {es : List (Event ι)}

/-- One statement begins what is next, or nothing. -/
structure MarkStep (features : Feature → Bool) (i : ι) (action : Bool) (t : InstrPc)
    (es : List (Event ι)) (t' : InstrPc) : Prop where
  checked : t'.Checked features
  marks : marks es ++ (t'.unlogged features action).map (fun m => (i, m)) =
    (t.unlogged features action).map fun m => (i, m)

theorem nopTimingLoop_marks {env : Env} {t : InstrThread} {l : TimingLoop} {p : LoopPc}
    {rest : List TimingLoop} (action : Bool) (henv : env.bootCpuHas = features)
    (hc : (InstrPc.atLoop l p rest).Checked features) :
    let r := nopTimingLoop i g env t l p rest
    MarkStep features i action (.atLoop l p rest) r.1 r.2.2.pc := by
  obtain ⟨hnc, hnu⟩ := nextLoop_unlogged features action rest
  obtain ⟨hac, hau⟩ := afterBody_unlogged features action l rest
  -- a loop that is executed is the next of those left
  have hnext : l.executed features = true →
      (InstrPc.atLoop l .testOnline rest).unlogged features action =
        .report l.printName :: (rest.filter (·.executed features)).map fun l =>
          .report l.printName := by
    intro hl
    show ((l :: rest).filter (·.executed features)).map _ = _
    rw [List.filter_cons_of_pos hl, List.map_cons]
  have quiet : ∀ {t' : InstrPc} {es : List (Event ι)}, t'.Checked features →
      NopTimer.marks es = [] → t'.unlogged features action =
        (InstrPc.atLoop l p rest).unlogged features action →
      MarkStep features i action (.atLoop l p rest) es t' := by
    intro t' es hc he hu
    refine ⟨hc, ?_⟩
    rw [he, hu]
    rfl
  unfold nopTimingLoop
  cases p
  case irqSave | irqDisable => exact ⟨fun _ => hc rfl, rfl⟩
  case irqRestore => exact ⟨nofun, rfl⟩
  case bootCpuHas f =>
    have hguard : l.guard = .bootFeature f := hc
    have hexec : l.executed features = features f := by
      unfold TimingLoop.executed
      rw [hguard]
    subst henv
    cases hb : env.bootCpuHas f
    · simp only [hb, Bool.false_eq_true, if_false]
      refine ⟨hnc, ?_⟩
      rw [hnu]
      show _ = (((l :: rest).filter (·.executed env.bootCpuHas)).map _).map _
      rw [List.filter_cons_of_neg (by rw [hexec, hb]; nofun)]
      rfl
    · simp only [hb, if_true]
      exact ⟨fun _ => by rw [hexec, hb], rfl⟩
  case testVmemAligned =>
    by_cases hv : env.vmemAligned ≠ 0
    · simp only [if_pos hv]; exact ⟨fun _ => hc rfl, rfl⟩
    · simp only [if_neg hv]; exact ⟨fun _ => hc rfl, rfl⟩
  case testOnline =>
    by_cases hv : 2 ≤ env.numOnlineCpus
    · simp only [if_pos hv]; exact ⟨fun _ => hc rfl, rfl⟩
    · simp only [if_neg hv]; exact ⟨fun _ => hc rfl, rfl⟩
  case zero =>
    refine ⟨hac, ?_⟩
    have hl := hnext (hc rfl)
    show (i, Mark.report l.printName) :: _ = _
    rw [hau]
    exact (congrArg (List.map fun m => (i, m)) hl).symm
  case setReset =>
    refine ⟨nofun, ?_⟩
    exact (congrArg (List.map fun m => (i, m)) (hnext (hc rfl))).symm
  case spinReset => cases g.resetCount <;> exact ⟨nofun, rfl⟩
  case spinResetStop => cases t.shouldStop <;> exact ⟨nofun, rfl⟩
  case forCall left => cases left <;> exact ⟨nofun, rfl⟩
  case label | setPrint => exact ⟨nofun, rfl⟩
  case spinPrint =>
    cases g.printCount
    · exact quiet hac rfl hau
    · exact ⟨nofun, rfl⟩
  case spinPrintStop =>
    cases t.shouldStop
    · exact ⟨nofun, rfl⟩
    · exact quiet hac rfl hau
  case irqEnable => exact quiet hnc rfl hnu

/-- The INSTR thread begins its reports in order. -/
theorem instrF_marks {env : Env} {t t' : InstrThread} (h : instrF i g env t = some (es, g', t'))
    (henv : env.bootCpuHas = features) (hc : t.pc.Checked features)
    (hcreated : t.pc = .created → t.shouldStop = false) :
    MarkStep features i t.action t.pc es t'.pc := by
  unfold instrF at h
  split at h
  case isFalse => cases h
  case isTrue =>
    cases hpc : t.pc <;> simp only [hpc] at h hc hcreated
    case notCreated | exited => cases h
    case atLoop l p rest =>
      have hm := nopTimingLoop_marks (i := i) (g := g) (t := t) t.action henv hc
      rw [Option.some.inj h] at hm
      exact hm
    case created =>
      simp only [hcreated trivial, Bool.false_eq_true, if_false] at h
      cases h
      exact ⟨trivial, rfl⟩
    case aggregating =>
      cases h
      obtain ⟨hchecked, hunlogged⟩ := nextLoop_unlogged features t.action (nopLoops t.action)
      refine ⟨hchecked, ?_⟩
      rw [hunlogged]
      rfl
    all_goals
      cases h
      exact ⟨trivial, rfl⟩

end ProgramOrder

/-! ## Runs of calls -/

/-- The calls of a run, in the order in which they begin. -/
def begun (evs : List (Event ι)) : List ι :=
  evs.filterMap fun
    | .begin i => some i
    | _ => none

theorem begun_append (evs es : List (Event ι)) : begun (evs ++ es) = begun evs ++ begun es :=
  List.filterMap_append

/-- The CPU features are the same in all threads. -/
def SameCpu (features : Feature → Bool) (_ : State ι) : Action ι → Prop
  | .instr _ env => env.bootCpuHas = features
  | _ => True

instance (features : Feature → Bool) (s : State ι) :
    (a : Action ι) → Decidable (SameCpu features s a)
  | .instr _ env => decidable_of_iff
      (env.bootCpuHas .rdrand = features .rdrand ∧ env.bootCpuHas .rdseed = features .rdseed)
      ⟨fun h => funext fun f => by cases f; exacts [h.1, h.2], fun h => h ▸ ⟨rfl, rfl⟩⟩
  | .begin _ _ | .call _ _ | .nop _ | .sigkill _ => isTrue trivial

theorem marks_threadEvents (evs : List (Event ι)) : marks (threadEvents evs) = marks evs := by
  rw [marks, threadEvents, List.filterMap_filter]
  refine List.filterMap_congr fun e _ => ?_
  cases e <;> rfl

theorem recordsOf_threadEvents (evs : List (Event ι)) :
    recordsOf (threadEvents evs) = recordsOf evs := by
  rw [recordsOf, threadEvents, List.filterMap_filter]
  refine List.filterMap_congr fun e _ => ?_
  cases e <;> rfl

/-- The NOP thread begins no call and no report. -/
theorem nopF_begins_nothing {i : ι} {g g' : Globals ι} {pending : Option Bool} {t t' : NopThread}
    {es : List (Event ι)} (h : nopF i g pending t = some (es, g', t')) :
    begun es = [] ∧ marks es = [] := by
  unfold nopF at h
  split at h
  case isFalse => cases h
  case isTrue =>
    cases hpc : t.pc <;> simp only [hpc] at h
    case notCreated | exited | faulted => cases h
    case testSignal => rcases pending with _ | _ | _ <;> cases h <;> exact ⟨rfl, rfl⟩
    all_goals cases h; exact ⟨rfl, rfl⟩

/-- The INSTR thread begins no call. -/
theorem instrF_begins_no_call {i : ι} {g g' : Globals ι} {env : Env} {t t' : InstrThread}
    {es : List (Event ι)} (h : instrF i g env t = some (es, g', t')) : begun es = [] := by
  unfold instrF at h
  split at h
  case isFalse => cases h
  case isTrue =>
    cases hpc : t.pc <;> simp only [hpc] at h
    case notCreated | exited => cases h
    case atLoop l p rest =>
      have hloop : begun (nopTimingLoop i g env t l p rest).1 = [] := by
        unfold nopTimingLoop
        cases p
        case spinReset => cases g.resetCount <;> rfl
        case spinResetStop => cases t.shouldStop <;> rfl
        case forCall left => cases left <;> rfl
        case spinPrint => cases g.printCount <;> rfl
        case spinPrintStop => cases t.shouldStop <;> rfl
        all_goals rfl
      rw [Option.some.inj h] at hloop
      exact hloop
    all_goals cases h; rfl

section Runs
variable [DecidableEq ι] {features : Feature → Bool} {s s' : State ι} {a : Action ι}
  {es : List (Event ι)}

theorem call_begins_no_call {i : ι} {err : Option Nat} (h : step s (.call i err) = some (es, s')) :
    begun es = [] := by
  change nopTimingStart s i err = some (es, s') at h
  unfold nopTimingStart at h
  cases hpc : (s.call i).pc <;> simp only [hpc] at h
  case notCalled | returned | faulted => cases h
  case createNop | createInstr => cases err <;> cases h <;> rfl
  case bindNop | wakeNop | stopNop =>
    cases hp : s.globals.nopTh <;> rw [hp] at h <;> cases h <;> rfl
  case bindInstr | wakeInstr | stopInstr =>
    cases hp : s.globals.instrTh <;> rw [hp] at h <;> cases h <;> rfl
  case joinNop j | joinInstr j => split at h <;> cases h; rfl
  all_goals cases h; rfl

/-- **What a step of a call that has begun adds**: its next marks. -/
structure Adds (features : Feature → Bool) (i : ι) (s : State ι) (es : List (Event ι))
    (s' : State ι) : Prop where
  begun : begun es = []
  stage : (s.call i).pc.stage ≤ (s'.call i).pc.stage
  action : (s'.call i).action = (s.call i).action
  checked : (s.call i).pc.InSection → (s.instr i).pc.Checked features →
    (s'.instr i).pc.Checked features
  marks : (s.call i).pc.InSection → (s.instr i).pc.Checked features →
    marks es ++ ((s'.instr i).pc.unlogged features (s.call i).action).map (fun m => (i, m)) =
      ((s.instr i).pc.unlogged features (s.call i).action).map fun m => (i, m)

theorem adds_step (hi : Inv s) (ha : ∀ i action, a ≠ .begin i action) (hc : Creates s a)
    (hf : SameCpu features s a) (hs : step s a = some (es, s')) :
    Adds features a.actor s es s' := by
  cases a with
  | begin i action => exact absurd rfl (ha i action)
  | call i err =>
    obtain rfl : err = none := hc
    have hcall := call_step hi hs
    have hmarks : marks es = [] := by rw [← marks_threadEvents, call_events hs]; rfl
    refine ⟨call_begins_no_call hs, hcall.stage.1, hcall.action, fun _ hchk => ?_, fun _ _ => ?_⟩
    · rcases hcall.instrPc with ht | ⟨-, ht⟩
      · exact ht ▸ hchk
      · simp only [Action.actor]
        rw [ht]
        trivial
    · simp only [Action.actor, hmarks]
      rcases hcall.instrPc with ht | ⟨ht, ht'⟩
      · rw [ht]
        rfl
      · rw [ht, ht']
        rfl
  | nop i =>
    obtain ⟨⟨es', g', n'⟩, hr, he⟩ := Option.map_eq_some_iff.mp hs
    obtain ⟨rfl, rfl⟩ := Prod.mk.inj he
    obtain ⟨hbegun, hmarks⟩ := nopF_begins_nothing hr
    refine ⟨hbegun, Nat.le_refl _, rfl, fun _ hchk => hchk, fun _ _ => ?_⟩
    rw [hmarks]
    rfl
  | instr i env =>
    obtain ⟨⟨es', g', t'⟩, hr, he⟩ := Option.map_eq_some_iff.mp hs
    obtain ⟨rfl, rfl⟩ := Prod.mk.inj he
    have ho := hi.own i
    have h12 := ho.instrAwake.mp (instrF_step hr).awake.1
    have hcreated : (s.instr i).pc = .created → (s.instr i).shouldStop = false := by
      intro hpc
      refine Bool.eq_false_iff.mpr fun hstop => ?_
      have h16 := ho.instrStop.mp hstop
      rcases ho.instrDone (by omega) with hd | hd <;> rw [hpc] at hd <;> cases hd
    refine ⟨instrF_begins_no_call hr, Nat.le_refl _, rfl, fun _ hchk => ?_, fun _ hchk => ?_⟩
    · simpa [Action.actor] using (instrF_marks hr hf hchk hcreated).checked
    · have hm := (instrF_marks hr hf hchk hcreated).marks
      rw [ho.action (by omega)] at hm
      simpa [Action.actor] using hm
  | sigkill i =>
    obtain ⟨rfl, rfl⟩ := Prod.mk.inj (Option.some.inj hs)
    exact ⟨rfl, Nat.le_refl _, rfl, fun _ hchk => hchk, fun _ _ => rfl⟩

/-- What a run has begun: all of the `calls` that have left their section, and of the call in
its section, if there is one, what `cur` says. -/
structure Told (features : Feature → Bool) (evs : List (Event ι)) (s : State ι)
    (calls : List (ι × Bool)) (cur : List (ι × Mark)) : Prop where
  inv : Inv s
  marks : marks evs = calls.flatMap (callMarks features) ++ cur
  past : ∀ c ∈ calls, (s.call c.1).action = c.2 ∧ 16 ≤ (s.call c.1).pc.stage
  inside : ∀ i, (s.call i).pc.InSection → begun evs = calls.map (·.1) ++ [i] ∧
    (s.instr i).pc.Checked features ∧
      cur ++ ((s.instr i).pc.unlogged features (s.call i).action).map (fun m => (i, m)) =
        callMarks features (i, (s.call i).action)
  outside : (∀ i, ¬ (s.call i).pc.InSection) → begun evs = calls.map (·.1) ∧ cur = []

section
variable {evs : List (Event ι)} {calls : List (ι × Bool)} {cur : List (ι × Mark)}

/-- A call begins. -/
theorem Told.begins {i : ι} {action : Bool} (h : Told features evs s calls cur)
    (hser : ∀ j, ¬ (s.call j).pc.InSection) (hs : step s (.begin i action) = some (es, s')) :
    Told features (evs ++ es) s' calls [] := by
  have hi' := inv_begin h.inv hser hs
  obtain ⟨hpc, rfl, rfl⟩ := begin_eq hs
  obtain ⟨hbegun, rfl⟩ := h.outside hser
  refine ⟨hi', ?_, fun c hc => ?_, fun j hj => ?_, fun hnone => ?_⟩
  · rw [marks_append, h.marks]
    exact List.append_nil _
  · have hne : c.1 ≠ i := by
      intro heq
      have h16 := (h.past c hc).2
      rw [heq, hpc] at h16
      exact absurd h16 (by simp [CallPc.stage])
    simp only [Function.update_of_ne hne]
    exact h.past c hc
  · by_cases hji : j = i
    · subst hji
      have ht := (h.inv.own j).instrCreated.mpr (by simp [hpc, CallPc.stage])
      refine ⟨?_, ?_, ?_⟩
      · rw [begun_append, hbegun]
        rfl
      · simp only [ht]
        trivial
      · simp only [ht, Function.update_self]
        rfl
    · simp only [Function.update_of_ne hji] at hj
      exact absurd hj (hser j)
  · refine absurd ?_ (hnone i)
    simp [CallPc.InSection, CallPc.stage]

/-- A step of the call in its section. -/
theorem Told.moves (h : Told features evs s calls cur) (ha : ∀ i action, a ≠ .begin i action)
    (hsec : (s.call a.actor).pc.InSection) (hc : Creates s a) (hf : SameCpu features s a)
    (hs : step s a = some (es, s')) :
    ∃ calls' cur', Told features (evs ++ es) s' calls' cur' := by
  have hadds := adds_step h.inv ha hc hf hs
  obtain ⟨hi', hframe⟩ := keeps_step h.inv ha hc hs
  obtain ⟨hbegun, hchecked, hcur⟩ := h.inside _ hsec
  have hchecked' := hadds.checked hsec hchecked
  have hbegun' : begun (evs ++ es) = calls.map (·.1) ++ [a.actor] := by
    rw [begun_append, hadds.begun, List.append_nil, hbegun]
  have hmarks' : (cur ++ NopTimer.marks es) ++ ((s'.instr a.actor).pc.unlogged features
      (s.call a.actor).action).map (fun m => (a.actor, m)) =
        callMarks features (a.actor, (s.call a.actor).action) := by
    rw [List.append_assoc, hadds.marks hsec hchecked, hcur]
  have hpast : ∀ c ∈ calls, (s'.call c.1).action = c.2 ∧ 16 ≤ (s'.call c.1).pc.stage := by
    intro c hc
    have hne : c.1 ≠ a.actor := by
      intro heq
      have h16 := (h.past c hc).2
      have h15 := hsec.2
      rw [heq] at h16
      omega
    rw [hframe.call _ hne]
    exact h.past c hc
  -- the others are not in their sections
  have hothers : ∀ i, (s'.call i).pc.InSection → i = a.actor := by
    intro i hi
    by_contra hne
    rw [hframe.call i hne] at hi
    exact hne (h.inv.exclusive i _ hi hsec)
  have hall : NopTimer.marks (evs ++ es) =
      calls.flatMap (callMarks features) ++ (cur ++ NopTimer.marks es) := by
    rw [marks_append, h.marks, List.append_assoc]
  by_cases hstays : (s'.call a.actor).pc.InSection
  · refine ⟨calls, cur ++ NopTimer.marks es, hi', hall, hpast, fun i hi => ?_, fun hnone => ?_⟩
    · obtain rfl := hothers i hi
      rw [hadds.action]
      exact ⟨hbegun', hchecked', hmarks'⟩
    · exact absurd hstays (hnone _)
  · have h16 : 16 ≤ (s'.call a.actor).pc.stage := by
      have h1 := hsec.1
      have hle := hadds.stage
      by_contra hlt
      exact hstays ⟨by omega, by omega⟩
    -- its INSTR thread is done, and nothing is left
    have hnil : (s'.instr a.actor).pc.unlogged features (s.call a.actor).action = [] := by
      rcases (hi'.own a.actor).instrDone (by omega) with hd | hd <;> rw [hd] <;> rfl
    rw [hnil, List.map_nil, List.append_nil] at hmarks'
    refine ⟨calls ++ [(a.actor, (s.call a.actor).action)], [], hi', ?_, ?_, fun i hi => ?_,
      fun _ => ⟨?_, rfl⟩⟩
    · rw [hall, hmarks', List.flatMap_append, List.flatMap_singleton, List.append_nil]
    · intro c hc
      rcases List.mem_append.mp hc with hc | hc
      · exact hpast c hc
      · obtain rfl := List.mem_singleton.mp hc
        exact ⟨hadds.action, h16⟩
    · exact absurd (hothers i hi ▸ hi) hstays
    · rw [hbegun', List.map_append]
      rfl

/-- A step of a call before or after its section. -/
theorem Told.idles (h : Told features evs s calls cur) (ha : ∀ i action, a ≠ .begin i action)
    (hout : ¬ (s.call a.actor).pc.InSection) (hc : Creates s a) (hf : SameCpu features s a)
    (hs : step s a = some (es, s')) : Told features (evs ++ es) s' calls cur := by
  have hadds := adds_step h.inv ha hc hf hs
  obtain ⟨hi', hframe⟩ := keeps_step h.inv ha hc hs
  have hmarks : NopTimer.marks es = [] := by
    rw [← marks_threadEvents, outside_silent h.inv hout ha hs]
    rfl
  refine ⟨hi', ?_, fun c hc => ?_, fun i hi => ?_, fun hnone => ?_⟩
  · rw [marks_append, hmarks, List.append_nil, h.marks]
  · obtain ⟨haction, h16⟩ := h.past c hc
    by_cases heq : c.1 = a.actor
    · rw [heq] at haction h16 ⊢
      exact ⟨hadds.action.trans haction, Nat.le_trans h16 hadds.stage⟩
    · rw [hframe.call _ heq]
      exact ⟨haction, h16⟩
  · have hne : i ≠ a.actor := by
      rintro rfl
      exact hout (hframe.enters hi)
    rw [hframe.call i hne] at hi ⊢
    rw [hframe.instr i hne, begun_append, hadds.begun, List.append_nil]
    exact h.inside i hi
  · rw [begun_append, hadds.begun, List.append_nil]
    refine h.outside fun i hi => ?_
    by_cases heq : i = a.actor
    · subst heq
      exact hout hi
    · exact hnone i (by rw [hframe.call i heq]; exact hi)

end

/-- **Every run of serialised calls begins its reports in order.** -/
theorem told_run {G : State ι → Action ι → Prop}
    (hG : ∀ s a, G s a → Serial s a ∧ Creates s a ∧ SameCpu features s a)
    {evs : List (Event ι)} (h : system.Run G initial evs s) :
    ∃ calls cur, Told features evs s calls cur := by
  refine h.invariant (I := fun evs s => ∃ calls cur, Told features evs s calls cur) ?_ ?_
  · refine ⟨[], [], inv_initial, rfl, by simp, fun i hi => ?_, fun _ => ⟨rfl, rfl⟩⟩
    simp [initial, CallPc.InSection, CallPc.stage] at hi
  · rintro evs s a es s' ⟨calls, cur, ht⟩ hg hs
    obtain ⟨hser, hc, hf⟩ := hG s a hg
    by_cases ha : ∃ i action, a = .begin i action
    · obtain ⟨i, action, rfl⟩ := ha
      exact ⟨calls, [], ht.begins hser hs⟩
    · push Not at ha
      by_cases hsec : (s.call a.actor).pc.InSection
      · exact ht.moves ha hsec hc hf hs
      · exact ⟨calls, cur, ht.idles ha hsec hc hf hs⟩

end Runs

end EcrToolkit.NopTimer

namespace EcrToolkit

open AtomicProgram NopTimer Transitions

/-! ## The log -/

/-- What the threads of a run log. -/
def NopRun.timed (u : NopRun) : List Record :=
  aggregating u.action :: u.reports.flatMap (·.records)

/-- The command of the ioctl. -/
def nopCommand (action : Bool) : BitVec 32 :=
  if action then timingIoctlThread else timingIoctlThreadFl

/-- The handler logs two records and calls `nop_timing_start`. -/
def nopHandler (action : Bool) : Code Return := do
  prInfo (.commandReceived (nopCommand action))
  prInfo (if action then .commencingNop else .commencingNopFl)
  return .nopTimingStart action

theorem timingUnlockedIoctl_nop (action : Bool) :
    timingUnlockedIoctl (nopCommand action) = nopHandler action := by
  cases action
  case true | false => rfl

/-- **The log of the ioctl** is what its handler logs, and then its threads, between the
records of `timing_open` and `timing_release`. -/
theorem NopRun.records_eq (u : NopRun) {ops : List Op} {r : Return}
    (h : Prog.Runs (timingUnlockedIoctl (nopCommand u.action)) ops r) :
    r = .nopTimingStart u.action ∧ u.records =
      .openSucceeded :: (ops.filterMap Op.record? ++ (u.timed ++ [.releaseSucceeded])) := by
  obtain ⟨action, features, reports, complete⟩ := u
  rw [timingUnlockedIoctl_nop] at h
  cases h with
  | op _ _ h =>
    cases h with
    | op _ _ h =>
      cases h
      cases action
      case true | false => exact ⟨rfl, rfl⟩

variable {ι : Type}

/-- The reports of a call, taken from its marks. -/
theorem exists_reports {i : ι} {items : List (ι × Item)} {ls : List TimingLoop}
    (h : (items.map fun x => (x.1, x.2.mark)) =
      (ls.map fun l => Mark.report l.printName).map fun m => (i, m)) :
    ∃ reports : List NopReport, items.flatMap (·.2.records) = reports.flatMap (·.records) ∧
      reports.map (·.name) = ls.map (·.printName) ∧ ∀ r ∈ reports, (i, .report r) ∈ items := by
  induction ls generalizing items with
  | nil =>
    obtain rfl := List.map_eq_nil_iff.mp h
    exact ⟨[], rfl, rfl, nofun⟩
  | cons l ls ih =>
    obtain ⟨⟨j, x⟩, rest, rfl, hx, hrest⟩ := List.map_eq_cons_iff.mp h
    obtain ⟨reports, hrecords, hnames, hmem⟩ := ih hrest
    cases x with
    | heading action => cases hx
    | report r =>
      obtain ⟨rfl, hmark⟩ := Prod.mk.inj hx
      have hname : r.name = l.printName := Mark.report.inj hmark
      refine ⟨r :: reports, ?_, ?_, ?_⟩
      · rw [List.flatMap_cons, hrecords]
        rfl
      · rw [List.map_cons, List.map_cons, hname, hnames]
      · exact List.forall_mem_cons.mpr ⟨List.mem_cons_self, fun r hr =>
          List.mem_cons_of_mem _ (hmem r hr)⟩

/-- The run of a call. -/
structure RunOf (features : Feature → Bool) (items : List (ι × Item)) (c : ι × Bool)
    (u : NopRun) : Prop where
  action : u.action = c.2
  features : u.bootCpuHas = features
  reports : ∀ r ∈ u.reports, (c.1, .report r) ∈ items

/-- The runs of calls, taken from their marks. -/
theorem exists_nopRuns {features : Feature → Bool} {items : List (ι × Item)}
    {calls : List (ι × Bool)}
    (h : (items.map fun x => (x.1, x.2.mark)) = calls.flatMap (callMarks features)) :
    ∃ runs : List NopRun, items.flatMap (·.2.records) = runs.flatMap (·.timed) ∧
      List.Forall₂ (RunOf features items) calls runs := by
  induction calls generalizing items with
  | nil =>
    obtain rfl := List.map_eq_nil_iff.mp h
    exact ⟨[], rfl, .nil⟩
  | cons c calls ih =>
    obtain ⟨own, rest, rfl, hown, hrest⟩ := List.map_eq_append_iff.mp h
    obtain ⟨runs, hrecords, hruns⟩ := ih hrest
    obtain ⟨⟨j, x⟩, own, rfl, hx, hreports⟩ := List.map_eq_cons_iff.mp hown
    obtain ⟨reports, hrep, hnames, hmem⟩ := exists_reports hreports
    cases x with
    | report r => cases hx
    | heading action =>
      cases hx
      have hlater : List.Forall₂ (RunOf features ((c.1, .heading c.2) :: own ++ rest))
          calls runs :=
        hruns.imp fun c u hu => ⟨hu.action, hu.features, fun r hr =>
          List.mem_append_right _ (hu.reports r hr)⟩
      refine ⟨⟨c.2, features, reports, hnames⟩ :: runs, ?_, .cons ⟨rfl, rfl, fun r hr => ?_⟩ hlater⟩
      · rw [List.flatMap_append, List.flatMap_cons, hrep, hrecords, List.flatMap_cons]
        rfl
      · exact List.mem_append_left _ (List.mem_cons_of_mem _ (hmem r hr))

/-- What call `i` has logged: a number reported is what the round of that name has counted. -/
structure CallRun (features : Feature → Bool) (evs : List (Event ι)) (s : State ι) (i : ι)
    (u : NopRun) : Prop where
  action : u.action = (s.call i).action
  features : u.bootCpuHas = features
  counted : ∀ name n, .counted name n ∈ u.reports →
    ∃ k, round wrap i name k <:+: threadEvents evs ∧ n = wrap k.counted

/-- The run of every call, in the order in which the calls began. -/
theorem exists_callRuns [DecidableEq ι] {features : Feature → Bool} {evs : List (Event ι)}
    {s : State ι}
    (h : system.Run (fun s a => Creates s a ∧ Serial s a ∧ SameCpu features s a) initial evs s)
    (hover : ∀ i, ¬ (s.call i).pc.InSection) : ∃ runs : List NopRun,
      recordsOf evs = runs.flatMap (·.timed) ∧
        List.Forall₂ (CallRun features evs s) (begun evs) runs := by
  obtain ⟨m, hacc, hm⟩ := metered_run (fun _ _ hg => ⟨hg.2.1, hg.1⟩) h
  obtain rfl := hm.outside hover
  obtain ⟨items, hrecords, hmarks, hcounted⟩ := (rounds_of_accepts hacc).items
  obtain ⟨calls, cur, htold⟩ := told_run (fun _ _ hg => ⟨hg.2.1, hg.1, hg.2.2⟩) h
  obtain ⟨hbegun, rfl⟩ := htold.outside hover
  rw [marks_threadEvents, htold.marks, List.append_nil] at hmarks
  obtain ⟨runs, hruns, hcalls⟩ := exists_nopRuns hmarks.symm
  refine ⟨runs, ?_, ?_⟩
  · rw [← hruns, ← hrecords, recordsOf_threadEvents]
  · rw [hbegun, List.forall₂_map_left_iff]
    have hactions : ∀ c ∈ calls, (s.call c.1).action = c.2 := fun c hc => (htold.past c hc).1
    refine ((List.forall₂_and_left _ _).mpr ⟨hactions, hcalls⟩).imp fun c u ⟨haction, hu⟩ => ?_
    exact ⟨hu.action.trans haction.symm, hu.features, fun name n hn =>
      hcounted c.1 name n (hu.reports _ hn)⟩

/-- **The threads log runs**: whatever their interleaving and however many CPUs are online,
serialised calls log one run after another, each with a report for every loop that the CPU
features allow, in the order of its table. -/
theorem runs_logged [DecidableEq ι] {features : Feature → Bool} {evs : List (Event ι)}
    {s : State ι}
    (h : system.Run (fun s a => Creates s a ∧ Serial s a ∧ SameCpu features s a) initial evs s)
    (hover : ∀ i, ¬ (s.call i).pc.InSection) : ∃ runs : List NopRun,
      recordsOf evs = runs.flatMap (·.timed) ∧ (∀ u ∈ runs, u.bootCpuHas = features) ∧
        runs.map (·.action) = (begun evs).map fun i => (s.call i).action := by
  obtain ⟨runs, hrecords, hcalls⟩ := exists_callRuns h hover
  refine ⟨runs, hrecords, ?_⟩
  clear hrecords
  generalize begun evs = calls at hcalls
  induction hcalls with
  | nil => exact ⟨nofun, rfl⟩
  | cons hu _ ih =>
    refine ⟨List.forall_mem_cons.mpr ⟨hu.features, ih.1⟩, ?_⟩
    rw [List.map_cons, List.map_cons, hu.action, ih.2]

set_option maxRecDepth 4000 in
/-- Two calls of `buffer_flush_instr_f`, one after the other. -/
theorem runs_logged_two_calls : ∃ (evs : List (Event Bool)) (s : State Bool),
    system.Run (fun s a => Creates s a ∧ Serial s a ∧ SameCpu (fun _ => true) s a) initial evs s ∧
    (∀ i, ¬ (s.call i).pc.InSection) ∧ begun evs = [false, true] ∧
    ∃ runs : List NopRun, recordsOf evs = runs.flatMap (·.timed) ∧
      (∀ u ∈ runs, u.bootCpuHas = fun _ => true) ∧
        runs.map (·.action) = (begun evs).map fun i => (s.call i).action := by
  obtain ⟨evs, s, hrun, hover, hbegun⟩ := System.Run.exists_of_exec system
    (fun s a => Creates s a ∧ Serial s a ∧ SameCpu (fun _ => true) s a) initial
    (completeCall false ++ completeCall true)
    (fun evs s => (∀ i, ¬ (s.call i).pc.InSection) ∧ begun evs = [false, true])
    (by decide +kernel)
  exact ⟨evs, s, hrun, hover, hbegun, runs_logged hrun hover⟩

end EcrToolkit
