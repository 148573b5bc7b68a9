import EcrToolkit.Buffer

/-!
# What a step of the device can be

`step_cases` lists the steps, each with what it finds and what it leaves.  The
invariants of the later modules go through this list.
-/
namespace EcrToolkit.Device

open AtomicProgram

variable {ι κ : Type}

section Updates
variable [DecidableEq ι] (s : State ι κ) (c : ι) (x : Client κ)

@[simp] theorem setClient_memory : (s.setClient c x).memory = s.memory := rfl
@[simp] theorem setClient_nop : (s.setClient c x).nop = s.nop := rfl
@[simp] theorem setClient_module : (s.setClient c x).module = s.module := rfl
@[simp] theorem setClient_self : (s.setClient c x).client c = x := Function.update_self ..
@[simp] theorem setClient_of_ne {d : ι} (h : d ≠ c) : (s.setClient c x).client d = s.client d :=
  Function.update_of_ne h ..

/-- A client after the update is the one updated, or one that was there. -/
theorem setClient_eq_or (d : ι) :
    (d = c ∧ (s.setClient c x).client d = x) ∨
      (d ≠ c ∧ (s.setClient c x).client d = s.client d) := by
  by_cases h : d = c
  · exact Or.inl ⟨h, by rw [h, setClient_self]⟩
  · exact Or.inr ⟨h, setClient_of_ne s c x h⟩

end Updates

variable [DecidableEq ι] [DecidableEq κ]

/-- The steps of the device. -/
inductive StepCases (s : State ι κ) : Action ι κ → List (Event ι κ) → State ι κ → Prop
  | openDev (c : ι) (hc : s.client c = .closed) (hr : s.memory.registered = true) :
    StepCases s (.openDev c) [.openDev c] (s.setClient c .opened)
  | ioctl (c : ι) (cmd : BitVec 32) (hc : s.client c = .opened) :
    StepCases s (.ioctl c cmd) [.ioctl c cmd]
      (s.setClient c (.running cmd (timingUnlockedIoctl cmd)))
  | op (c : ι) (env : Env) (cmd : BitVec 32) (o : Op) (k : o.Res → Code Return) (r : o.Res)
      (m : Memory) (hc : s.client c = .running cmd (.op o k))
      (hr : perform env s.memory o = some (r, m)) :
    StepCases s (.handler c env) [.op c o]
      { s.setClient c (.running cmd (k r)) with memory := m }
  | fault (c : ι) (env : Env) (cmd : BitVec 32) (o : Op) (k : o.Res → Code Return)
      (hc : s.client c = .running cmd (.op o k)) (hr : perform env s.memory o = none) :
    StepCases s (.handler c env) [.op c o, .fault c] (s.setClient c .faulted)
  | ret (c : ι) (env : Env) (cmd : BitVec 32) (r : Int)
      (hc : s.client c = .running cmd (.ret (.value r))) :
    StepCases s (.handler c env) [.ret c r] (s.setClient c .opened)
  | enterNop (c : ι) (j : κ) (cmd : BitVec 32) (action : Bool) (es : List (NopTimer.Event κ))
      (n : NopTimer.State κ) (hc : s.client c = .running cmd (.ret (.nopTimingStart action)))
      (hn : NopTimer.step s.nop (.begin j action) = some (es, n)) :
    StepCases s (.enterNop c j) (es.map .nop) { s.setClient c (.waiting cmd j) with nop := n }
  | leaveNop (c : ι) (cmd : BitVec 32) (j : κ) (hc : s.client c = .waiting cmd j)
      (hj : (s.nop.call j).pc = .returned) :
    StepCases s (.leaveNop c) [.ret c 0] (s.setClient c .opened)
  | leaveFault (c : ι) (cmd : BitVec 32) (j : κ) (hc : s.client c = .waiting cmd j)
      (hj : (s.nop.call j).pc = .faulted) :
    StepCases s (.leaveNop c) [.fault c] (s.setClient c .faulted)
  | closeDev (c : ι) (hc : s.client c = .opened) :
    StepCases s (.closeDev c) [.closeDev c] (s.setClient c .closed)
  | nop (a : NopTimer.Action κ) (mapped : Bool) (es : List (Event ι κ)) (s' : State ι κ)
      (h : nopStep s mapped a = some (es, s')) : StepCases s (.nop a mapped) es s'
  | unload (hm : s.module = .loaded) :
    StepCases s .unload [] { s with module := .removing timingCleanupModule }
  | insert (env : Env) (o : Op) (k : o.Res → Code Int) (r : o.Res) (m : Memory)
      (hm : s.module = .inserting (.op o k)) (hr : perform env s.memory o = some (r, m)) :
    StepCases s (.module env) [.module o] { s with memory := m, module := .inserting (k r) }
  | inserted (env : Env) (r : Int) (hm : s.module = .inserting (.ret r)) :
    StepCases s (.module env) [] { s with module := if r = 0 then .loaded else .failed }
  | remove (env : Env) (o : Op) (k : o.Res → Code Unit) (r : o.Res) (m : Memory)
      (hm : s.module = .removing (.op o k)) (hr : perform env s.memory o = some (r, m)) :
    StepCases s (.module env) [.module o] { s with memory := m, module := .removing (k r) }
  | removed (env : Env) (hm : s.module = .removing (.ret ())) :
    StepCases s (.module env) [] { s with module := .removed }

/-- **Every step is one of these.** -/
theorem step_cases {s s' : State ι κ} {a : Action ι κ} {es : List (Event ι κ)}
    (h : step s a = some (es, s')) : StepCases s a es s' := by
  cases a with
  | openDev c =>
    simp only [step] at h
    split at h
    case h_2 => cases h
    case h_1 hc =>
      split at h
      case isFalse => cases h
      case isTrue hr => cases h; exact .openDev c hc hr
  | ioctl c cmd =>
    simp only [step] at h
    split at h
    case h_1 hc => cases h; exact .ioctl c cmd hc
    case h_2 => cases h
  | handler c env =>
    simp only [step, handlerStep] at h
    split at h
    case h_1 cmd o k hc =>
      split at h
      case h_1 r hr => cases h; exact .op c env cmd o k r.1 r.2 hc hr
      case h_2 hr => cases h; exact .fault c env cmd o k hc hr
    case h_2 cmd r hc => cases h; exact .ret c env cmd r hc
    case h_3 => cases h
  | enterNop c j =>
    simp only [step, enterNop] at h
    split at h
    case h_2 => cases h
    case h_1 cmd action hc =>
      obtain ⟨r, hr, he⟩ := Option.map_eq_some_iff.mp h
      cases he
      exact .enterNop c j cmd action r.1 r.2 hc hr
  | leaveNop c =>
    simp only [step, leaveNop] at h
    split at h
    case h_2 => cases h
    case h_1 cmd j hc =>
      split at h
      case h_1 hj => cases h; exact .leaveNop c cmd j hc hj
      case h_2 hj => cases h; exact .leaveFault c cmd j hc hj
      case h_3 => cases h
  | closeDev c =>
    simp only [step] at h
    split at h
    case h_1 hc => cases h; exact .closeDev c hc
    case h_2 => cases h
  | nop a mapped => exact .nop a mapped es s' h
  | unload =>
    simp only [step] at h
    split at h
    case h_1 hm => cases h; exact .unload hm
    case h_2 => cases h
  | module env =>
    simp only [step, moduleStep] at h
    split at h
    case h_1 o k hm =>
      obtain ⟨r, hr, he⟩ := Option.map_eq_some_iff.mp h
      cases he
      exact .insert env o k r.1 r.2 hm hr
    case h_2 r hm => cases h; exact .inserted env r hm
    case h_3 o k hm =>
      obtain ⟨r, hr, he⟩ := Option.map_eq_some_iff.mp h
      cases he
      exact .remove env o k r.1 r.2 hm hr
    case h_4 hm => cases h; exact .removed env hm
    case h_5 => cases h

/-- What a step inside the NOP timer leaves alone. -/
structure NopFrame (s s' : State ι κ) : Prop where
  memory : s'.memory = s.memory
  client : s'.client = s.client
  module : s'.module = s.module

omit [DecidableEq ι] in
theorem nopStep_frame {s s' : State ι κ} {mapped : Bool} {a : NopTimer.Action κ}
    {es : List (Event ι κ)} (h : nopStep s mapped a = some (es, s')) : NopFrame s s' := by
  cases a with
  | begin j b => cases h
  | instr j env =>
    simp only [nopStep, instrStep] at h
    obtain ⟨r, -, he⟩ := Option.map_eq_some_iff.mp h
    split at he
    case h_1 => cases he; exact ⟨rfl, rfl, rfl⟩
    case h_2 => split at he <;> cases he <;> exact ⟨rfl, rfl, rfl⟩
  | call j err | nop j | sigkill j =>
    simp only [nopStep] at h
    obtain ⟨r, -, he⟩ := Option.map_eq_some_iff.mp h
    cases he
    exact ⟨rfl, rfl, rfl⟩

end EcrToolkit.Device
