import EcrToolkit.BufferGuard
import Mathlib.Data.List.Pairwise

/-!
# Removing the module

`timing_cleanup_module` frees the buffer first, clears neither global, and only then
deregisters the device; and nothing makes `rmmod` wait for the descriptors that are
open.  The memory is not used after `kfree` if `kfree` is executed while no handler
of a command that uses the buffer is in progress and no measurement is running, and
no such command is issued afterwards (`no_use_after_free`).
-/
namespace EcrToolkit.Device

open AtomicProgram AtomicProgram.Prog

variable {ι κ : Type}

/-! ## Accesses and frees -/

/-- `kfree` is executed. -/
def Event.isKfree : Event ι κ → Bool
  | .module (.kfree _) => true
  | _ => false

/-- Memory is accessed through `vmem` or `vmem_aligned`. -/
def Event.isAccess : Event ι κ → Bool
  | .op _ (.access _ _ _) => true
  | .instrAccess _ _ _ => true
  | _ => false

/-- The commands whose handlers read `vmem` or `vmem_aligned`. -/
def usesBuffer (cmd : BitVec 32) : Bool :=
  cmd == timingIoctlWall || cmd == timingIoctlThread || cmd == timingIoctlCache ||
    cmd == timingIoctlMemory || cmd == timingIoctlKmalloc || cmd == timingIoctlWallFl ||
    cmd == timingIoctlThreadFl

/-- In an ioctl with one of these commands. -/
def Client.usesBuffer : Client κ → Bool
  | .running cmd _ | .waiting cmd _ => Device.usesBuffer cmd
  | _ => false

/-- No call of `nop_timing_start` is in progress, and no INSTR thread is there. -/
def NoMeasurement (n : NopTimer.State κ) : Prop :=
  ∀ j, ((n.call j).pc = .notCalled ∨ (n.call j).pc = .returned ∨ (n.call j).pc = .faulted) ∧
    ((n.instr j).pc = .notCreated ∨ (n.instr j).pc = .exited)

/-- Nobody is using the buffer. -/
def BufferIdle (s : State ι κ) : Prop :=
  (∀ c, (s.client c).usesBuffer = false) ∧ NoMeasurement s.nop

/-- `timing_cleanup_module` is about to call `kfree`. -/
def Module.atKfree : Module → Bool
  | .removing (.op (.kfree _) _) => true
  | _ => false

/-- **Nobody is using the buffer when it is freed**, and nobody starts to afterwards. -/
def FreedIdle (s : State ι κ) : Action ι κ → Prop
  | .module _ => s.module.atKfree = true → BufferIdle s
  | .ioctl _ cmd => s.memory.freed ≠ [] → usesBuffer cmd = false
  | _ => True

instance [Fintype κ] (n : NopTimer.State κ) [DecidableEq κ] : Decidable (NoMeasurement n) :=
  inferInstanceAs (Decidable (∀ _, _))

instance [Fintype ι] [Fintype κ] [DecidableEq κ] (s : State ι κ) : Decidable (BufferIdle s) :=
  inferInstanceAs (Decidable (_ ∧ _))

instance [Fintype ι] [Fintype κ] [DecidableEq κ] (s : State ι κ) : ∀ a, Decidable (FreedIdle s a)
  | .module _ => inferInstanceAs (Decidable (s.module.atKfree = true → BufferIdle s))
  | .ioctl _ cmd =>
    inferInstanceAs (Decidable (s.memory.freed ≠ [] → usesBuffer cmd = false))
  | .openDev _ | .handler _ _ | .enterNop _ _ | .leaveNop _ | .closeDev _ | .nop _ _ | .unload =>
    .isTrue trivial

/-! ## Handlers -/

/-- The operation is not `kfree`. -/
def noKfree : Op → Bool
  | .kfree _ => false
  | _ => true

theorem perform_noKfree {env : Env} {m m' : Memory} {o : Op} {r : o.Res}
    (ho : noKfree o = true) (h : perform env m o = some (r, m')) : m'.freed = m.freed := by
  cases o
  case kfree => cases ho
  case access via a p =>
    simp only [perform] at h
    split at h <;> cases h
    rfl
  case kmalloc n =>
    cases h
    unfold Memory.obtain
    split <;> rfl
  all_goals
    cases h
    rfl

/-- No handler calls `kfree`. -/
def NoKfree {α : Type} (p : Code α) : Prop := Safe (fun _ _ => True) (noKfree · = true) p

theorem inert_noKfree {o : Op} (h : inert o = true) : noKfree o = true := by
  cases o <;> first | rfl | cases h

theorem noKfree_timingUnlockedIoctl (cmd : BitVec 32) : NoKfree (timingUnlockedIoctl cmd) := by
  by_cases hcmd : cmd = timingIoctlKmalloc
  · have hverify : NoKfree kmallocVerify :=
      safe_kmallocVerify (fun _ ho => inert_noKfree ho) (fun _ _ => rfl) fun _ _ _ _ _ _ => rfl
    rw [hcmd, timingUnlockedIoctl_kmalloc, kmallocCommand_eq]
    refine safe_op rfl fun _ _ => safe_op rfl fun _ _ => safe_op rfl fun (v : BitVec 64) _ => ?_
    split
    · refine safe_op rfl fun _ _ => safe_op rfl fun _ _ => safe_op rfl fun _ _ => ?_
      exact safe_op rfl fun _ _ => hverify
    · exact hverify
  · exact Allows.timingUnlockedIoctl
      ⟨fun _ ho => inert_noKfree ho, fun _ _ _ _ _ _ _ _ => rfl, fun _ _ _ _ _ _ _ => rfl⟩ hcmd

/-- The handlers of the other commands only log. -/
inductive LogsOnly (cmd : BitVec 32) (p : Code Return) : Prop
  | start (hp : p = timingUnlockedIoctl cmd)
  | nop (hp : p = .op (.prInfo .finishedNop) fun _ => .ret (.value 0))
  | ret (r : Int) (hp : p = .ret (.value r))

theorem timingUnlockedIoctl_of_unused {cmd : BitVec 32} (h : usesBuffer cmd = false) :
    timingUnlockedIoctl cmd = .op (.prInfo (.commandReceived cmd)) fun _ =>
      if cmd = timingIoctlNop then .op (.prInfo .finishedNop) fun _ => .ret (.value 0)
      else .ret (.value (-eInval)) := by
  simp only [usesBuffer, Bool.or_eq_false_iff, beq_eq_false_iff_ne] at h
  obtain ⟨⟨⟨⟨⟨⟨hwall, hthread⟩, hcache⟩, hmemory⟩, hkmalloc⟩, hwallFl⟩, hthreadFl⟩ := h
  unfold timingUnlockedIoctl
  rw [if_neg hwall, if_neg hthread, if_neg hcache, if_neg hmemory, if_neg hkmalloc,
    if_neg hwallFl, if_neg hthreadFl]
  rfl

theorem LogsOnly.step {cmd : BitVec 32} {o : Op} {k : o.Res → Code Return}
    (h : LogsOnly cmd (.op o k)) (hcmd : usesBuffer cmd = false) (r : o.Res) :
    inert o = true ∧ LogsOnly cmd (k r) := by
  rcases h with hp | hp | ⟨_, hp⟩
  · rw [timingUnlockedIoctl_of_unused hcmd] at hp
    cases hp
    refine ⟨rfl, ?_⟩
    show LogsOnly cmd (if cmd = timingIoctlNop then _ else _)
    split
    · exact .nop rfl
    · exact .ret _ rfl
  · cases hp
    exact ⟨rfl, .ret 0 rfl⟩
  · cases hp

theorem LogsOnly.no_nop {cmd : BitVec 32} {action : Bool}
    (h : LogsOnly cmd (.ret (.nopTimingStart action))) (hcmd : usesBuffer cmd = false) : False := by
  rcases h with hp | hp | ⟨_, hp⟩
  · rw [timingUnlockedIoctl_of_unused hcmd] at hp
    cases hp
  · cases hp
  · cases hp

/-! ## The NOP timer at rest -/

section Nop
variable [DecidableEq κ]

/-- A step inside the NOP timer, while there is no measurement: only NOP threads
that are on their way out move. -/
theorem nopStep_noMeasurement {s s' : State ι κ} {mapped : Bool} {a : NopTimer.Action κ}
    {es : List (Event ι κ)} (h : NoMeasurement s.nop) (hs : nopStep s mapped a = some (es, s')) :
    NoMeasurement s'.nop ∧ ∀ e ∈ es, e.isAccess = false := by
  have hsilent : ∀ evs : List (NopTimer.Event κ),
      ∀ e ∈ evs.map (Event.nop (ι := ι)), e.isAccess = false :=
    fun evs => List.forall_mem_map.mpr fun _ _ => rfl
  cases a with
  | begin j action => cases hs
  | instr j env =>
    simp only [nopStep, instrStep] at hs
    obtain ⟨r, hr, -⟩ := Option.map_eq_some_iff.mp hs
    obtain ⟨q, hq, -⟩ := Option.map_eq_some_iff.mp hr
    exfalso
    unfold NopTimer.instrF at hq
    rcases (h j).2 with hpc | hpc
    · rw [hpc] at hq
      split at hq <;> cases hq
    · rw [hpc] at hq
      split at hq <;> cases hq
  | call j err =>
    simp only [nopStep] at hs
    obtain ⟨r, hr, -⟩ := Option.map_eq_some_iff.mp hs
    exfalso
    obtain ⟨h1, h2, h3⟩ := (NopTimer.nopTimingStart_frame hr).called
    rcases (h j).1 with hpc | hpc | hpc
    · exact h1 hpc
    · exact h2 hpc
    · exact h3 hpc
  | nop j =>
    simp only [nopStep] at hs
    obtain ⟨r, hr, he⟩ := Option.map_eq_some_iff.mp hs
    obtain ⟨q, -, rfl⟩ := Option.map_eq_some_iff.mp hr
    cases he
    exact ⟨h, hsilent _⟩
  | sigkill j =>
    cases hs
    exact ⟨h, hsilent []⟩

/-- No step inside the NOP timer is a `kfree`. -/
theorem nopStep_noKfree {s s' : State ι κ} {mapped : Bool} {a : NopTimer.Action κ}
    {es : List (Event ι κ)} (hs : nopStep s mapped a = some (es, s')) :
    ∀ e ∈ es, e.isKfree = false := by
  have hsilent : ∀ evs : List (NopTimer.Event κ),
      ∀ e ∈ evs.map (Event.nop (ι := ι)), e.isKfree = false :=
    fun evs => List.forall_mem_map.mpr fun _ _ => rfl
  cases a with
  | begin j action => cases hs
  | instr j env =>
    simp only [nopStep, instrStep] at hs
    obtain ⟨r, -, he⟩ := Option.map_eq_some_iff.mp hs
    split at he
    case h_1 => cases he; exact hsilent _
    case h_2 =>
      split at he <;> cases he
      · exact List.forall_mem_cons.mpr ⟨rfl, hsilent _⟩
      · exact List.forall_mem_cons.mpr ⟨rfl, List.forall_mem_singleton.mpr rfl⟩
  | call j err | nop j | sigkill j =>
    simp only [nopStep] at hs
    obtain ⟨r, -, he⟩ := Option.map_eq_some_iff.mp hs
    cases he
    exact hsilent _

end Nop

/-! ## The invariant -/

/-- What every step keeps: no handler calls `kfree`, the handlers of the other commands
only log, and once `kfree` was called nobody uses the buffer. -/
structure Unloading (s : State ι κ) : Prop where
  handlers : ∀ c cmd p, s.client c = .running cmd p → NoKfree p
  logs : ∀ c cmd p, s.client c = .running cmd p → usesBuffer cmd = false → LogsOnly cmd p
  inserting : ∀ p, s.module = .inserting p → NoKfree p
  idle : s.memory.freed ≠ [] → BufferIdle s

theorem unloading_initial : Unloading (initial : State ι κ) where
  handlers _ _ _ h := nomatch h
  logs _ _ _ h := nomatch h
  inserting p hp := by
    cases hp
    exact safe_timingInitModule (fun _ ho => inert_noKfree ho) rfl
  idle h := absurd rfl h

/-- What one step does. -/
structure UnloadStep (s : State ι κ) (es : List (Event ι κ)) (s' : State ι κ) : Prop where
  next : Unloading s'
  kfree : ∀ e ∈ es, e.isKfree = true → es = [e] ∧ s'.memory.freed ≠ []
  freed : s.memory.freed ≠ [] → s'.memory.freed ≠ []
  access : s.memory.freed ≠ [] → ∀ e ∈ es, e.isAccess = false

section Step
variable [DecidableEq ι] {s : State ι κ}

/-- The client of a step goes on, without a `kfree`. -/
theorem UnloadStep.of_client (h : Unloading s) {c : ι} {x : Client κ} {m : Memory}
    {n : NopTimer.State κ} {es : List (Event ι κ)}
    (hx : ∀ cmd p, x = .running cmd p →
      NoKfree p ∧ (usesBuffer cmd = false → LogsOnly cmd p))
    (hm : m.freed = s.memory.freed) (hkfree : ∀ e ∈ es, e.isKfree = false)
    (hidle : s.memory.freed ≠ [] → x.usesBuffer = false ∧ NoMeasurement n ∧
      ∀ e ∈ es, e.isAccess = false) :
    UnloadStep s es { s.setClient c x with memory := m, nop := n } := by
  refine ⟨⟨fun d cmd p hd => ?_, fun d cmd p hd hcmd => ?_, h.inserting, fun hf => ?_⟩,
    fun e he hk => ?_, fun hf => ?_, fun hf => (hidle hf).2.2⟩
  · rcases setClient_eq_or s c x d with ⟨-, he⟩ | ⟨-, he⟩
    · exact (hx cmd p (he.symm.trans hd)).1
    · exact h.handlers d cmd p (he.symm.trans hd)
  · rcases setClient_eq_or s c x d with ⟨-, he⟩ | ⟨-, he⟩
    · exact (hx cmd p (he.symm.trans hd)).2 hcmd
    · exact h.logs d cmd p (he.symm.trans hd) hcmd
  · have hf' : s.memory.freed ≠ [] := hm ▸ hf
    refine ⟨fun d => ?_, (hidle hf').2.1⟩
    show ((s.setClient c x).client d).usesBuffer = false
    rcases setClient_eq_or s c x d with ⟨-, he⟩ | ⟨-, he⟩
    · rw [he]
      exact (hidle hf').1
    · rw [he]
      exact (h.idle hf').1 d
  · rw [hkfree e he] at hk
    cases hk
  · exact hm ▸ hf

/-- The client only opens, closes, returns or faults. -/
theorem UnloadStep.of_quiet (h : Unloading s) {c : ι} {x : Client κ} {es : List (Event ι κ)}
    (hx : x.busy = false) (hes : ∀ e ∈ es, e.isKfree = false ∧ e.isAccess = false) :
    UnloadStep s es (s.setClient c x) := by
  refine .of_client (m := s.memory) (n := s.nop) h ?_ rfl (fun e he => (hes e he).1) fun hf => ?_
  · rintro cmd p rfl
    cases hx
  · refine ⟨?_, (h.idle hf).2, fun e he => (hes e he).2⟩
    cases x
    case running | waiting => cases hx
    all_goals rfl

omit [DecidableEq ι] in
/-- The module goes on, and nobody sees it. -/
theorem UnloadStep.of_module (h : Unloading s) {x : Module}
    (hx : ∀ p, x = .inserting p → NoKfree p) : UnloadStep s [] { s with module := x } where
  next := ⟨h.handlers, h.logs, hx, h.idle⟩
  kfree _ he := absurd he List.not_mem_nil
  freed := id
  access _ _ he := absurd he List.not_mem_nil

variable [DecidableEq κ]

/-- **One step** that `FreedIdle` allows. -/
theorem unload_step {s' : State ι κ} {a : Action ι κ} {es : List (Event ι κ)}
    (h : Unloading s) (hg : FreedIdle s a) (hs : step s a = some (es, s')) :
    UnloadStep s es s' := by
  have hone : ∀ e : Event ι κ, e.isKfree = false ∧ e.isAccess = false →
      ∀ e' ∈ [e], e'.isKfree = false ∧ e'.isAccess = false := by
    intro e he e' he'
    rw [List.mem_singleton.mp he']
    exact he
  -- after `kfree` a handler that performs an operation only logs
  have hlogs : ∀ c cmd o k, s.client c = .running cmd (.op o k) → s.memory.freed ≠ [] →
      usesBuffer cmd = false ∧ inert o = true := by
    intro c cmd o k hc hf
    have hcmd : usesBuffer cmd = false := by
      have hidle := (h.idle hf).1 c
      rw [hc] at hidle
      exact hidle
    refine ⟨hcmd, ?_⟩
    rcases h.logs c cmd _ hc hcmd with hp | hp | ⟨_, hp⟩
    · rw [timingUnlockedIoctl_of_unused hcmd] at hp
      cases hp
      rfl
    · cases hp
      rfl
    · cases hp
  cases step_cases hs with
  | openDev c hc hr => exact .of_quiet h rfl (hone _ ⟨rfl, rfl⟩)
  | closeDev c hc => exact .of_quiet h rfl (hone _ ⟨rfl, rfl⟩)
  | ret c env cmd r hc => exact .of_quiet h rfl (hone _ ⟨rfl, rfl⟩)
  | leaveNop c cmd j hc hj => exact .of_quiet h rfl (hone _ ⟨rfl, rfl⟩)
  | leaveFault c cmd j hc hj => exact .of_quiet h rfl (hone _ ⟨rfl, rfl⟩)
  | ioctl c cmd hc =>
    refine .of_client (m := s.memory) (n := s.nop) h ?_ rfl (fun e he => (hone _ ⟨rfl, rfl⟩ e he).1)
      fun hf => ⟨hg hf, (h.idle hf).2, fun e he => (hone _ ⟨rfl, rfl⟩ e he).2⟩
    intro cmd' p he
    obtain ⟨rfl, rfl⟩ := Client.running.inj he
    exact ⟨noKfree_timingUnlockedIoctl cmd, fun _ => .start rfl⟩
  | op c env cmd o k r m hc hr =>
    obtain ⟨hno, hrest⟩ := (h.handlers c cmd _ hc).step (r := r) trivial
    refine .of_client (n := s.nop) h (fun cmd' p he => ?_) (perform_noKfree hno hr)
      (fun e he => ?_) fun hf => ?_
    · obtain ⟨rfl, rfl⟩ := Client.running.inj he
      exact ⟨hrest, fun hcmd => ((h.logs c cmd _ hc hcmd).step hcmd r).2⟩
    · rw [List.mem_singleton.mp he]
      rfl
    · obtain ⟨hcmd, hinert⟩ := hlogs c cmd o k hc hf
      refine ⟨hcmd, (h.idle hf).2, fun e he => ?_⟩
      rw [List.mem_singleton.mp he]
      cases o
      case access => cases hinert
      all_goals rfl
  | fault c env cmd o k hc hr =>
    refine .of_client (m := s.memory) (n := s.nop) h nofun rfl (fun e he => ?_) fun hf => ?_
    · rcases List.mem_cons.mp he with rfl | he
      · rfl
      · exact (hone _ ⟨rfl, rfl⟩ e he).1
    · obtain ⟨-, hinert⟩ := hlogs c cmd o k hc hf
      refine ⟨rfl, (h.idle hf).2, fun e he => ?_⟩
      rcases List.mem_cons.mp he with rfl | he
      · cases o
        case access => cases hinert
        all_goals rfl
      · exact (hone _ ⟨rfl, rfl⟩ e he).2
  | enterNop c j cmd action es n hc hn =>
    have hsilent : ∀ e ∈ es.map (Event.nop (ι := ι)), e.isKfree = false ∧ e.isAccess = false := by
      intro e he
      obtain ⟨e', -, rfl⟩ := List.mem_map.mp he
      exact ⟨rfl, rfl⟩
    refine .of_client (m := s.memory) h nofun rfl (fun e he => (hsilent e he).1) fun hf => ?_
    have hcmd : usesBuffer cmd = false := by
      have hidle := (h.idle hf).1 c
      rw [hc] at hidle
      exact hidle
    exact absurd hcmd fun hcmd => (h.logs c cmd _ hc hcmd).no_nop hcmd
  | nop a mapped es s' hn =>
    obtain ⟨hm, hc, hmod⟩ := nopStep_frame hn
    refine ⟨⟨fun c cmd p hp => ?_, fun c cmd p hp => ?_, fun p hp => ?_, fun hf => ?_⟩,
      fun e he hk => ?_, fun hf => hm ▸ hf, fun hf => ?_⟩
    · exact h.handlers c cmd p (hc ▸ hp)
    · exact h.logs c cmd p (hc ▸ hp)
    · exact h.inserting p (hmod ▸ hp)
    · have hidle := h.idle (hm ▸ hf)
      refine ⟨fun c => ?_, (nopStep_noMeasurement hidle.2 hn).1⟩
      rw [hc]
      exact hidle.1 c
    · rw [nopStep_noKfree hn e he] at hk
      cases hk
    · exact (nopStep_noMeasurement (h.idle hf).2 hn).2
  | unload hm => exact .of_module h nofun
  | insert env o k r m hm hr =>
    obtain ⟨hno, hrest⟩ := (h.inserting _ hm).step (r := r) trivial
    have hfreed := perform_noKfree hno hr
    refine ⟨⟨h.handlers, h.logs, fun p hp => ?_, fun hf => h.idle (hfreed ▸ hf)⟩, fun e he hk => ?_,
      fun hf => hfreed ▸ hf, fun _ e he => ?_⟩
    · obtain rfl := Module.inserting.inj hp
      exact hrest
    · rw [List.mem_singleton.mp he] at hk
      cases o
      case kfree => cases hno
      all_goals cases hk
    · rw [List.mem_singleton.mp he]
      rfl
  | inserted env r hm =>
    refine .of_module h fun p hp => ?_
    have hp' : (if r = 0 then Module.loaded else Module.failed) = .inserting p := hp
    split at hp' <;> cases hp'
  | remove env o k r m hm hr =>
    by_cases ho : noKfree o = true
    · have hfreed := perform_noKfree ho hr
      refine ⟨⟨h.handlers, h.logs, nofun, fun hf => h.idle (hfreed ▸ hf)⟩, fun e he hk => ?_,
        fun hf => hfreed ▸ hf, fun _ e he => ?_⟩
      · rw [List.mem_singleton.mp he] at hk
        cases o
        case kfree => cases ho
        all_goals cases hk
      · rw [List.mem_singleton.mp he]
        rfl
    · obtain ⟨p, rfl⟩ : ∃ p, o = .kfree p := by
        cases o
        case kfree p => exact ⟨p, rfl⟩
        all_goals exact absurd rfl ho
      have hidle : BufferIdle s := hg (by rw [hm]; rfl)
      cases hr
      refine ⟨⟨h.handlers, h.logs, nofun, fun _ => hidle⟩, fun e he _ => ?_, fun _ => nofun,
        fun _ e he => ?_⟩
      · rw [List.mem_singleton.mp he]
        exact ⟨rfl, nofun⟩
      · rw [List.mem_singleton.mp he]
        rfl
  | removed env hm => exact .of_module h nofun

/-- No access comes after a `kfree`. -/
def NoUseAfterFree (evs : List (Event ι κ)) : Prop :=
  evs.Pairwise fun e e' => e.isKfree = true → e'.isAccess = false

/-- **No use after free**, in every run that frees the buffer only when nobody uses it. -/
theorem no_use_after_free {evs : List (Event ι κ)} {s : State ι κ}
    (h : system.Run FreedIdle initial evs s) : NoUseAfterFree evs := by
  refine (h.invariant (I := fun evs s => Unloading s ∧
    (∀ e ∈ evs, e.isKfree = true → s.memory.freed ≠ []) ∧ NoUseAfterFree evs)
    ⟨unloading_initial, fun _ he => absurd he List.not_mem_nil, List.Pairwise.nil⟩ ?_).2.2
  rintro evs s a es s' ⟨hs, hfreed, hpair⟩ hg hstep
  obtain ⟨hnext, hkfree, hmono, haccess⟩ := unload_step hs hg hstep
  refine ⟨hnext, fun e he hk => ?_, List.pairwise_append.mpr ⟨hpair, ?_, ?_⟩⟩
  · rcases List.mem_append.mp he with he | he
    · exact hmono (hfreed e he hk)
    · exact (hkfree e he hk).2
  · refine List.pairwise_of_forall_mem_list fun e he e' he' hk => ?_
    -- a step that frees does nothing else
    rw [(hkfree e he hk).1] at he'
    rw [List.mem_singleton.mp he']
    cases e
    case module => rfl
    all_goals cases hk
  · intro e he e' he' hk
    exact haccess (hfreed e he hk) e' he'

end Step

/-- The buffer is allocated and freed; the client, still connected, issues a `NOP`. -/
def freeThenNop : List (Action (Fin 1) (Fin 1)) :=
  insmod ++ [.openDev 0, .ioctl 0 timingIoctlKmalloc] ++ steps 0 17 0x1000 ++ [.unload] ++
    List.replicate 2 (.module (answering 0)) ++ [.ioctl 0 timingIoctlNop] ++ steps 0 3 0

theorem no_use_after_free_nop : ∃ evs s,
    system.Run FreedIdle (initial : State (Fin 1) (Fin 1)) evs s ∧
    s.memory.freed = [0x1000] ∧ .op 0 (.prInfo .finishedNop) ∈ evs ∧ NoUseAfterFree evs := by
  obtain ⟨evs, s, hrun, hf, he⟩ := Transitions.System.Run.exists_of_exec system FreedIdle
    (initial : State (Fin 1) (Fin 1)) freeThenNop
    (fun evs s => s.memory.freed = [0x1000] ∧ .op 0 (.prInfo .finishedNop) ∈ evs)
    (by decide +kernel)
  exact ⟨evs, s, hrun, hf, he, no_use_after_free hrun⟩

/-- The cache timing has passed its check of `vmem` when the module is removed. -/
def freeWhileTiming : List (Action (Fin 1) (Fin 1)) :=
  insmod ++ [.openDev 0, .ioctl 0 timingIoctlKmalloc] ++ steps 0 17 0x1000 ++
    [.ioctl 0 timingIoctlCache] ++ steps 0 3 0 ++ [.unload] ++
    List.replicate 2 (.module (answering 0)) ++ steps 0 2 0

/-- The cache timing flushes a line of the block that `kfree` has taken back. -/
theorem cache_timing_after_kfree : ∃ evs s,
    system.Run (fun _ _ => True) (initial : State (Fin 1) (Fin 1)) evs s ∧
    s.memory.allocated = [0x1000] ∧ s.memory.freed = [0x1000] ∧
    .op 0 (.access .vmemAligned .flush 0x1000) ∈ evs ∧ ¬ NoUseAfterFree evs := by
  obtain ⟨evs, s, hrun, ha, hf, he, hnot⟩ := Transitions.System.Run.exists_of_exec system
    (fun _ _ => True) (initial : State (Fin 1) (Fin 1)) freeWhileTiming
    (fun evs s => s.memory.allocated = [0x1000] ∧ s.memory.freed = [0x1000] ∧
      .op 0 (.access .vmemAligned .flush 0x1000) ∈ evs ∧
      ¬ evs.Pairwise fun e e' => e.isKfree = true → e'.isAccess = false) (by decide +kernel)
  exact ⟨evs, s, hrun, ha, hf, he, hnot⟩

end EcrToolkit.Device
