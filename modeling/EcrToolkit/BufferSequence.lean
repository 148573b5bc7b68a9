import EcrToolkit.BufferGuard
import EcrToolkit.NopSession

/-!
# The buffer under ioctls handled one at a time

When an ioctl is issued only after the one before has returned, no two handlers
interleave, and the globals of `main.c` are settled whenever no handler is between
its two stores.  `Running` says what the one handler that runs may be in the middle
of, and `Sequential` is the invariant of a run (`sequential_run`).
-/
namespace EcrToolkit.Device

open AtomicProgram AtomicProgram.Prog

variable {ι κ : Type}

/-! ## Runs -/

/-- `timing_init_module` has succeeded, and `rmmod` has not begun. -/
def Module.isLoaded : Module → Bool
  | .loaded => true
  | _ => false

/-- What `kmalloc` may return: NULL or the address of a block. -/
def Outcome (p : BitVec 64) : Prop := p = 0 ∨ Block p

instance (p : BitVec 64) : Decidable (Outcome p) := inferInstanceAs (Decidable (_ ∨ _))

/-- **One at a time**: an ioctl is issued, and the module removed, only while no
other ioctl is in progress. -/
def OneAtATime (s : State ι κ) : Action ι κ → Prop
  | .ioctl _ _ => s.module.isLoaded = true ∧ ∀ d, (s.client d).busy = false
  | .unload => ∀ d, (s.client d).busy = false
  | .handler c env => (s.client c).atKmalloc = true → Outcome env.kmalloc
  | _ => True

instance [Fintype ι] (s : State ι κ) : ∀ a, Decidable (OneAtATime s a)
  | .ioctl _ _ =>
    inferInstanceAs (Decidable (s.module.isLoaded = true ∧ ∀ d, (s.client d).busy = false))
  | .unload => inferInstanceAs (Decidable (∀ d, (s.client d).busy = false))
  | .handler c env =>
    inferInstanceAs (Decidable ((s.client c).atKmalloc = true → Outcome env.kmalloc))
  | .openDev _ | .enterNop _ _ | .leaveNop _ | .closeDev _ | .nop _ _ | .module _ =>
    .isTrue trivial

/-! ## The handler that runs -/

/-- The accesses of `cache_timer.c` and `memory_timer.c`. -/
def isProbe : Access → Bool
  | .flush | .probe => true
  | _ => false

/-- What the operations answer as long as nobody changes the globals. -/
def Answers (m : Memory) : (o : Op) → o.Res → Prop
  | .readVmem, r => r = m.vmem
  | .readVmemAligned, r => r = m.vmemAligned
  | .access _ _ q, _ => q ≠ 0
  | _, _ => True

/-- What a handler of `cmd` may do then: the probes need a buffer, and every other
access through `vmem_aligned` is at the aligned address, which is not NULL. -/
def Uses (m : Memory) (cmd : BitVec 32) : Op → Prop
  | .access .vmem _ _ => True
  | .access .vmemAligned a q =>
    if isProbe a then probes cmd = true ∧ m.vmem ≠ 0 else q = m.vmemAligned ∧ q ≠ 0
  | o => inert o = true

theorem answers_of_perform {env : Env} {m m' : Memory} {o : Op} {r : o.Res}
    (h : perform env m o = some (r, m')) : Answers m o r := by
  cases o
  case readVmem | readVmemAligned => cases h; rfl
  case access via a q =>
    simp only [perform] at h
    split at h
    case isTrue hq => exact hq.1
    case isFalse => cases h
  all_goals trivial

theorem Uses.keepsMemory {m : Memory} {cmd : BitVec 32} {o : Op} (h : Uses m cmd o) :
    keepsMemory o = true := by
  cases o
  case access => rfl
  all_goals exact h

theorem uses_of_inert {m : Memory} {cmd : BitVec 32} {o : Op} (h : inert o = true) :
    Uses m cmd o := by
  cases o
  case access => cases h
  all_goals exact h

theorem instrAccess_isProbe {f : InstrF} {a : Access} (h : instrAccess f = some a) :
    isProbe a = false := by
  cases f
  case movntdqa | movntdq | clflush => cases h; rfl
  all_goals cases h

/-- Every handler but the allocating one, from its first statement. -/
theorem uses_timingUnlockedIoctl (m : Memory) {cmd : BitVec 32} (h : cmd ≠ timingIoctlKmalloc) :
    Safe (Answers m) (Uses m cmd) (timingUnlockedIoctl cmd) := by
  refine Allows.timingUnlockedIoctl ⟨fun o => uses_of_inert, ?_, ?_⟩ h
  · intro r r' f a ha hr hne hr'
    show if isProbe a then _ else _
    rw [instrAccess_isProbe ha]
    obtain rfl : r = m.vmemAligned := hr
    obtain rfl : r' = m.vmemAligned := hr'
    exact ⟨rfl, hne⟩
  · intro v a q hcmd hv hne ha
    show if isProbe a then _ else _
    have hp : isProbe a = true := by rcases ha with rfl | rfl <;> rfl
    rw [hp]
    obtain rfl : v = m.vmem := hv
    exact ⟨hcmd, hne⟩

theorem uses_kmallocVerify {m : Memory} (h : Settled m) (cmd : BitVec 32) :
    Safe (Answers m) (Uses m cmd) kmallocVerify := by
  refine safe_kmallocVerify (fun o => uses_of_inert) (fun _ _ => trivial) ?_
  intro v r a hv hr ha
  obtain rfl : v = m.vmem := hv
  obtain rfl : a = m.vmemAligned := ha
  exact ⟨rfl, fun hz => hr (h.vmem_eq_zero_iff.mpr hz)⟩

/-- What the handler that runs is in the middle of. -/
inductive Running (m : Memory) (cmd : BitVec 32) (p : Code Return) : Prop
  | start (hcmd : cmd = timingIoctlKmalloc) (hp : p = timingUnlockedIoctl timingIoctlKmalloc)
      (h : Settled m)
  | command (hcmd : cmd = timingIoctlKmalloc) (hp : p = kmallocCommand) (h : Settled m)
  | check (hcmd : cmd = timingIoctlKmalloc) (hp : p = kmallocCheck) (h : Settled m)
  | allocating (hcmd : cmd = timingIoctlKmalloc) (h : Allocating Outcome m p)
  | settled (h : Settled m) (hp : Safe (Answers m) (Uses m cmd) p)

theorem running_timingUnlockedIoctl {m : Memory} (h : Settled m) (cmd : BitVec 32) :
    Running m cmd (timingUnlockedIoctl cmd) := by
  by_cases hcmd : cmd = timingIoctlKmalloc
  · rw [hcmd]
    exact .start rfl rfl h
  · exact .settled h (uses_timingUnlockedIoctl m hcmd)

/-- What one operation of the handler does. -/
structure HandlerStep (m m' : Memory) (cmd : BitVec 32) (p : Code Return) : Prop where
  running : Running m' cmd p
  freed : m'.freed = m.freed
  keeps : Settled m → m.vmem ≠ 0 ∨ cmd ≠ timingIoctlKmalloc → m' = m
  aligned : m.vmemAligned ≠ 0 → m'.vmemAligned ≠ 0
  vmem : m.vmem ≠ 0 → m'.vmem = m.vmem

theorem HandlerStep.same {m m' : Memory} {cmd : BitVec 32} {p : Code Return} (hm : m' = m)
    (h : Running m cmd p) : HandlerStep m m' cmd p := by
  subst hm
  exact ⟨h, rfl, fun _ _ => rfl, id, fun _ => rfl⟩

/-- A handler that is allocating has not stored `vmem_aligned`. -/
theorem Allocating.aligned_eq_zero {P : BitVec 64 → Prop} {m : Memory} {p : Code Return}
    (h : Allocating P m p) : m.vmemAligned = 0 := by
  rcases h with ⟨-, h, hv⟩ | ⟨q, -, -, -, ha, -⟩ | ⟨-, -, ha, -⟩ | ⟨-, -, ha, -⟩
  · exact h.vmem_eq_zero_iff.mp hv
  · exact ha
  · exact ha
  · exact ha

/-- It does not store `vmem` a second time. -/
theorem Allocating.vmem_eq {P : BitVec 64 → Prop} {m m' : Memory} {o : Op}
    {k : o.Res → Code Return} {r : o.Res} {env : Env} (h : Allocating P m (.op o k))
    (hr : perform env m o = some (r, m')) (hv : m.vmem ≠ 0) : m'.vmem = m.vmem := by
  rcases h with ⟨-, -, hz⟩ | ⟨q, -, -, hz, -, -⟩ | ⟨hp, -, -, -⟩ | ⟨hp, -, -, -⟩
  · exact absurd hz hv
  · exact absurd hz hv
  · cases hp
    cases hr
    rfl
  · rw [kmallocPublish_eq] at hp
    cases hp
    cases hr
    rfl

/-- **One operation** of the handler that runs. -/
theorem Running.step {m m' : Memory} {cmd : BitVec 32} {o : Op} {k : o.Res → Code Return}
    {r : o.Res} {env : Env} (h : Running m cmd (.op o k))
    (henv : ∀ n, o = .kmalloc n → Outcome env.kmalloc) (hr : perform env m o = some (r, m')) :
    HandlerStep m m' cmd (k r) := by
  rcases h with ⟨rfl, hp, h⟩ | ⟨rfl, hp, h⟩ | ⟨rfl, hp, h⟩ | ⟨rfl, h⟩ | ⟨h, hp⟩
  · rw [timingUnlockedIoctl_kmalloc] at hp
    cases hp
    cases hr
    exact .same rfl (.command rfl rfl h)
  · rw [kmallocCommand_eq] at hp
    cases hp
    cases hr
    exact .same rfl (.check rfl rfl h)
  · cases hp
    cases hr
    refine .same rfl ?_
    show Running m timingIoctlKmalloc (if m.vmem = 0 then kmallocAllocate else kmallocVerify)
    by_cases hv : m.vmem = 0
    · rw [if_pos hv]
      exact .allocating rfl (.allocate rfl h hv)
    · rw [if_neg hv]
      exact .settled h (uses_kmallocVerify h _)
  · have hstep := h.step (fun _ => id) henv hr
    have ha := h.aligned_eq_zero
    refine ⟨?_, hstep.freed, fun hset hv => ?_, fun hne => absurd ha hne, h.vmem_eq hr⟩
    · rcases hstep.next with hnext | ⟨hset, hverify⟩
      · exact .allocating rfl hnext
      · rw [hverify]
        exact .settled hset (uses_kmallocVerify hset _)
    · rcases hv with hv | hv
      · exact absurd (hset.vmem_eq_zero_iff.mpr ha) hv
      · exact absurd rfl hv
  · obtain ⟨huse, hsafe⟩ := hp.step (answers_of_perform hr)
    obtain rfl := perform_keepsMemory huse.keepsMemory hr
    exact .same rfl (.settled h hsafe)

/-- The globals are settled unless the handler is allocating. -/
theorem Running.settled_or {m : Memory} {cmd : BitVec 32} {p : Code Return}
    (h : Running m cmd p) : Settled m ∨ Allocating Outcome m p := by
  rcases h with ⟨-, -, h⟩ | ⟨-, -, h⟩ | ⟨-, -, h⟩ | ⟨-, h⟩ | ⟨h, -⟩
  · exact Or.inl h
  · exact Or.inl h
  · exact Or.inl h
  · exact Or.inr h
  · exact Or.inl h

/-- A handler leaves the globals settled when it returns, and when it faults. -/
theorem Running.settled_of_ret {m : Memory} {cmd : BitVec 32} {r : Return}
    (h : Running m cmd (.ret r)) : Settled m := by
  refine h.settled_or.resolve_right fun halloc => ?_
  obtain ⟨o, k, hp⟩ := halloc.exists_op
  cases hp

theorem Running.settled_of_fault {m : Memory} {cmd : BitVec 32} {o : Op}
    {k : o.Res → Code Return} {env : Env} (h : Running m cmd (.op o k))
    (hr : perform env m o = none) : Settled m :=
  h.settled_or.resolve_right fun halloc => halloc.no_fault hr

/-- An access through `vmem_aligned` is what `Uses` allows, and finds the globals settled. -/
theorem Running.access {m : Memory} {cmd : BitVec 32} {a : Access} {q : BitVec 64}
    {k : (Op.access .vmemAligned a q).Res → Code Return}
    (h : Running m cmd (.op (.access .vmemAligned a q) k)) :
    Settled m ∧ Uses m cmd (.access .vmemAligned a q) := by
  rcases h with ⟨-, hp, -⟩ | ⟨-, hp, -⟩ | ⟨-, hp, -⟩ | ⟨-, h⟩ | ⟨h, hp⟩
  · rw [timingUnlockedIoctl_kmalloc] at hp
    cases hp
  · rw [kmallocCommand_eq] at hp
    cases hp
  · cases hp
  · rcases h with ⟨hp, -, -⟩ | ⟨q, hp, -, -, -, -⟩ | ⟨hp, -, -, -⟩ | ⟨hp, -, -, -⟩
    · rw [kmallocAllocate_eq] at hp
      cases hp
    · rw [kmallocStore_eq] at hp
      cases hp
    · cases hp
    · rw [kmallocPublish_eq] at hp
      cases hp
  · exact ⟨h, hp.1⟩

/-! ## The module's own programs -/

/-- The operation neither allocates nor frees, nor stores to the globals. -/
def keepsBuffer : Op → Bool
  | .kfree _ => false
  | o => keepsBlocks o

theorem perform_keepsBuffer {env : Env} {m m' : Memory} {o : Op} {r : o.Res}
    (ho : keepsBuffer o = true) (h : perform env m o = some (r, m')) :
    SameBlocks m m' ∧ m'.freed = m.freed := by
  cases o
  case kfree => cases ho
  case access via a p =>
    simp only [perform] at h
    split at h <;> cases h
    exact ⟨⟨rfl, rfl, rfl⟩, rfl⟩
  all_goals first | (cases h; exact ⟨⟨rfl, rfl, rfl⟩, rfl⟩) | cases ho

/-- A program of the module that leaves the buffer alone. -/
def LeavesBuffer {α : Type} (p : Code α) : Prop := Safe (fun _ _ => True) (keepsBuffer · = true) p

/-- What `timing_cleanup_module` does after `kfree`. -/
def afterKfree : Code Unit := do
  miscDeregister
  prAlert .removing

theorem timingCleanupModule_eq : timingCleanupModule =
    .op .readVmem fun (p : BitVec 64) => .op (.kfree p) fun _ => afterKfree := rfl

theorem afterKfree_leavesBuffer : LeavesBuffer afterKfree :=
  safe_op rfl fun _ _ => safe_op rfl fun _ _ => safe_ret _

theorem timingInitModule_leavesBuffer : LeavesBuffer timingInitModule := by
  refine safe_timingInitModule (fun o ho => ?_) rfl
  cases o
  case kfree => cases ho
  all_goals exact inert_keepsBlocks ho

/-- `timing_cleanup_module`, before, at and after its `kfree`. -/
inductive Removing (m : Memory) (p : Code Unit) : Prop
  | start (hp : p = timingCleanupModule) (hf : m.freed = [])
  | free (hp : p = .op (.kfree m.vmem) fun _ => afterKfree) (hf : m.freed = [])
  | after (hp : LeavesBuffer p) (hf : m.freed = [m.vmem])

theorem Removing.freed_of_ret {m : Memory} (h : Removing m (.ret ())) : m.freed = [m.vmem] := by
  rcases h with ⟨hp, -⟩ | ⟨hp, -⟩ | ⟨-, hf⟩
  · rw [timingCleanupModule_eq] at hp
    cases hp
  · cases hp
  · exact hf

/-- What was freed so far. -/
def ModuleState (m : Memory) : Module → Prop
  | .inserting p => LeavesBuffer p ∧ m.freed = []
  | .removing p => Removing m p
  | .removed => m.freed = [m.vmem]
  | _ => m.freed = []

/-- One operation of `timing_cleanup_module`. -/
theorem Removing.step {m m' : Memory} {o : Op} {k : o.Res → Code Unit} {r : o.Res} {env : Env}
    (h : Removing m (.op o k)) (hr : perform env m o = some (r, m')) :
    SameBlocks m m' ∧ Removing m' (k r) := by
  rcases h with ⟨hp, hf⟩ | ⟨hp, hf⟩ | ⟨hp, hf⟩
  · rw [timingCleanupModule_eq] at hp
    cases hp
    cases hr
    exact ⟨⟨rfl, rfl, rfl⟩, .free rfl hf⟩
  · cases hp
    cases hr
    refine ⟨⟨rfl, rfl, rfl⟩, .after afterKfree_leavesBuffer ?_⟩
    show m.vmem :: m.freed = [m.vmem]
    rw [hf]
  · obtain ⟨hkeep, hrest⟩ := hp.step (r := r) trivial
    obtain ⟨hm, hfreed⟩ := perform_keepsBuffer hkeep hr
    exact ⟨hm, .after hrest (by rw [hfreed, hm.vmem, hf])⟩

/-! ## The invariant -/

/-- One handler at most, which is `Running`; settled globals whenever there is none;
the buffer freed by `timing_cleanup_module` only; and guarded INSTR threads. -/
structure Sequential (s : State ι κ) : Prop where
  one : ∀ c d, (s.client c).busy = true → (s.client d).busy = true → c = d
  loaded : ∀ c, (s.client c).busy = true → s.module.isLoaded = true
  running : ∀ c cmd p, s.client c = .running cmd p → Running s.memory cmd p
  settled : Settled s.memory ∨ ∃ c, (s.client c).isRunning = true
  module : ModuleState s.memory s.module
  guarded : AllGuarded s

theorem sequential_initial : Sequential (initial : State ι κ) where
  one _ _ h _ := nomatch h
  loaded _ h := nomatch h
  running _ _ _ h := nomatch h
  settled := Or.inl .zero
  module := ⟨timingInitModule_leavesBuffer, rfl⟩
  guarded _ := .outside _ rfl

theorem busy_of_isRunning {x : Client κ} (h : x.isRunning = true) : x.busy = true := by
  cases x
  case running => rfl
  all_goals cases h

theorem exists_of_isRunning {x : Client κ} (h : x.isRunning = true) :
    ∃ cmd p, x = .running cmd p := by
  cases x
  case running cmd p => exact ⟨cmd, p, rfl⟩
  all_goals cases h

section Step
variable [DecidableEq ι] {s : State ι κ}

omit [DecidableEq ι] in
/-- While `c` is in an ioctl nobody else is. -/
theorem Sequential.alone (h : Sequential s) {c : ι} (hc : (s.client c).busy = true) :
    ∀ d, d ≠ c → (s.client d).busy = false := by
  intro d hd
  by_contra hb
  exact hd (h.one d c (by simpa using hb) hc)

omit [DecidableEq ι] in
theorem Sequential.settled_of_idle (h : Sequential s) (hidle : ∀ c, (s.client c).busy = false) :
    Settled s.memory := by
  rcases h.settled with hs | ⟨c, hc⟩
  · exact hs
  · have hb := hidle c
    rw [busy_of_isRunning hc] at hb
    cases hb

/-- The one client in an ioctl, `c`, goes on as `x`. -/
theorem Sequential.update {c : ι} {x : Client κ} {m : Memory}
    {n : NopTimer.State κ} (halone : ∀ d, d ≠ c → (s.client d).busy = false)
    (hloaded : x.busy = true → s.module.isLoaded = true)
    (hx : ∀ cmd p, x = .running cmd p → Running m cmd p)
    (hset : Settled m ∨ x.isRunning = true) (hmod : ModuleState m s.module)
    (hg : ∀ j, Guarded m.vmemAligned (n.instr j).pc) :
    Sequential { s.setClient c x with memory := m, nop := n } := by
  have honly : ∀ d, ((s.setClient c x).client d).busy = true → d = c ∧ x.busy = true := by
    intro d hd
    rcases setClient_eq_or s c x d with ⟨rfl, he⟩ | ⟨hne, he⟩
    · exact ⟨rfl, he ▸ hd⟩
    · rw [he, halone d hne] at hd
      cases hd
  refine ⟨fun d d' hd hd' => ?_, fun d hd => hloaded (honly d hd).2, fun d cmd p hp => ?_, ?_,
    hmod, hg⟩
  · exact (honly d hd).1.trans (honly d' hd').1.symm
  · have hp' : (s.setClient c x).client d = .running cmd p := hp
    obtain ⟨rfl, -⟩ := honly d (by rw [hp']; rfl)
    exact hx cmd p ((setClient_self s d x).symm.trans hp')
  · refine hset.imp_right fun hr => ⟨c, ?_⟩
    show ((s.setClient c x).client c).isRunning = true
    rw [setClient_self]
    exact hr

/-- A client that was not in an ioctl, and is not afterwards, opens or closes. -/
theorem Sequential.bystander (h : Sequential s) {c : ι} {x : Client κ}
    (hc : (s.client c).busy = false) (hx : x.busy = false) : Sequential (s.setClient c x) := by
  have hsame : ∀ d, ((s.setClient c x).client d).busy = true →
      (s.setClient c x).client d = s.client d := by
    intro d hd
    rcases setClient_eq_or s c x d with ⟨rfl, he⟩ | ⟨-, he⟩
    · rw [he, hx] at hd
      cases hd
    · exact he
  refine ⟨fun d d' hd hd' => ?_, fun d hd => ?_, fun d cmd p hp => ?_, ?_, h.module, h.guarded⟩
  · exact h.one d d' (hsame d hd ▸ hd) (hsame d' hd' ▸ hd')
  · exact h.loaded d (hsame d hd ▸ hd)
  · exact h.running d cmd p ((hsame d (by rw [hp]; rfl)).symm.trans hp)
  · rcases h.settled with hs | ⟨d, hd⟩
    · exact Or.inl hs
    · refine Or.inr ⟨d, ?_⟩
      have hne : d ≠ c := by
        rintro rfl
        rw [busy_of_isRunning hd] at hc
        cases hc
      rw [setClient_of_ne s c x hne]
      exact hd

omit [DecidableEq ι] in
/-- The module goes on, with no ioctl in progress unless it stays loaded. -/
theorem Sequential.moduleOp (h : Sequential s) {m : Memory} {x : Module}
    (hm : SameBlocks s.memory m) (hx : ModuleState m x)
    (hidle : ∀ c, (s.client c).busy = false) : Sequential { s with memory := m, module := x } := by
  have hset := (h.settled_of_idle hidle).congr hm
  refine ⟨h.one, fun c hc => ?_, fun c cmd p hp => ?_, Or.inl hset, hx, fun j => ?_⟩
  · exact absurd (hc.symm.trans (hidle c)) nofun
  · have hb := hidle c
    rw [hp] at hb
    cases hb
  · show Guarded m.vmemAligned _
    rw [hm.vmemAligned]
    exact h.guarded j

omit [DecidableEq ι] in
theorem Sequential.idle_of_not_loaded (h : Sequential s) (hm : s.module.isLoaded = false) (c : ι) :
    (s.client c).busy = false := by
  by_contra hb
  have hl := h.loaded c (by simpa using hb)
  rw [hm] at hl
  cases hl

/-- The memory after a handler's operation goes with the state of the module. -/
theorem ModuleState.congr {m m' : Memory} {x : Module} (h : ModuleState m x)
    (hx : x.isLoaded = true) (hf : m'.freed = m.freed) : ModuleState m' x := by
  cases x
  case loaded => exact hf.trans h
  all_goals cases hx

omit [DecidableEq ι] in
/-- The globals are settled unless a handler is allocating. -/
theorem Sequential.settled_or (h : Sequential s) : Settled s.memory ∨
    ∃ c cmd p, s.client c = .running cmd p ∧ Allocating Outcome s.memory p := by
  rcases h.settled with hs | ⟨c, hc⟩
  · exact Or.inl hs
  · obtain ⟨cmd, p, hp⟩ := exists_of_isRunning hc
    exact (h.running c cmd p hp).settled_or.imp_right fun halloc => ⟨c, cmd, p, hp, halloc⟩

omit [DecidableEq ι] in
/-- Once `vmem_aligned` is set the globals are settled. -/
theorem Sequential.settled_of_aligned (h : Sequential s) (ha : s.memory.vmemAligned ≠ 0) :
    Settled s.memory := by
  rcases h.settled_or with hs | ⟨c, cmd, p, -, halloc⟩
  · exact hs
  · exact absurd halloc.aligned_eq_zero ha

/-- A client whose call of `nop_timing_start` is over goes on. -/
theorem Sequential.leave (h : Sequential s) {c : ι} {cmd : BitVec 32} {j : κ}
    (hc : s.client c = .waiting cmd j) {x : Client κ} (hx : x.busy = false) :
    Sequential (s.setClient c x) := by
  have hb : (s.client c).busy = true := by rw [hc]; rfl
  have hset : Settled s.memory := by
    rcases h.settled with hs | ⟨d, hd⟩
    · exact hs
    · obtain rfl := h.one c d hb (busy_of_isRunning hd)
      rw [hc] at hd
      cases hd
  refine .update (m := s.memory) (n := s.nop) (h.alone hb) (fun hb => ?_) ?_ (Or.inl hset)
    h.module h.guarded
  · rw [hx] at hb
    cases hb
  · rintro cmd' p rfl
    cases hx

/-- What one event of a step can touch through `vmem_aligned`: a cache or memory
handler that found `vmem` set probes, and everybody else accesses the aligned
address. -/
def Touches (s : State ι κ) (e : Event ι κ) : Prop :=
  ∀ x, e.touched = some x → Settled s.memory ∧
    if isProbe x.1 then
      s.memory.vmem ≠ 0 ∧ ∃ c cmd p, s.client c = .running cmd p ∧ probes cmd = true
    else x.2 = s.memory.vmemAligned ∧ s.memory.vmemAligned ≠ 0

omit [DecidableEq ι] in
theorem Sequential.touches_op (h : Sequential s) {c : ι} {cmd : BitVec 32} {o : Op}
    {k : o.Res → Code Return} (hc : s.client c = .running cmd (.op o k)) :
    Touches s (.op c o) := by
  intro x hx
  cases o
  case access via a q =>
    cases via
    case vmem => cases hx
    case vmemAligned =>
      cases hx
      obtain ⟨hset, huse⟩ := (h.running c cmd _ hc).access
      refine ⟨hset, ?_⟩
      change if isProbe a = true then _ else _ at huse
      show if isProbe a = true then _ else _
      split at huse
      case isTrue hp =>
        rw [if_pos hp]
        exact ⟨huse.2, c, cmd, _, hc, huse.1⟩
      case isFalse hp =>
        rw [if_neg hp]
        exact ⟨huse.1, huse.1 ▸ huse.2⟩
  all_goals cases hx

omit [DecidableEq ι] in
theorem touches_silent {e : Event ι κ} (he : e.touched = none) : Touches s e := by
  intro x hx
  rw [he] at hx
  cases hx

omit [DecidableEq ι] in
theorem touches_nop (es : List (NopTimer.Event κ)) :
    ∀ e ∈ es.map (Event.nop (ι := ι)), Touches s e :=
  List.forall_mem_map.mpr fun _ _ => touches_silent rfl

/-- What a step does to a run of one ioctl after another. -/
structure SequentialStep (s : State ι κ) (a : Action ι κ) (es : List (Event ι κ))
    (s' : State ι κ) : Prop where
  next : Sequential s'
  touches : ∀ e ∈ es, Touches s e
  stable : Settled s.memory → s.memory.vmem ≠ 0 → SameBlocks s.memory s'.memory
  vmem : s.memory.vmem ≠ 0 → s'.memory.vmem = s.memory.vmem
  probing : ∀ c cmd p, s'.client c = .running cmd p → probes cmd = true →
    s'.memory.vmem = s.memory.vmem ∧ (a = .ioctl c cmd ∨ ∃ p', s.client c = .running cmd p')

/-- A step that leaves memory alone and starts no handler. -/
theorem SequentialStep.of_idle {c : ι} {x : Client κ} {n : NopTimer.State κ} {a : Action ι κ}
    {es : List (Event ι κ)} (hx : x.isRunning = false)
    (hnext : Sequential { s.setClient c x with nop := n }) (hes : ∀ e ∈ es, Touches s e) :
    SequentialStep s a es { s.setClient c x with nop := n } := by
  refine ⟨hnext, hes, fun _ _ => ⟨rfl, rfl, rfl⟩, fun _ => rfl, fun d cmd p hp _ => ?_⟩
  refine ⟨rfl, Or.inr ⟨p, ?_⟩⟩
  rcases setClient_eq_or s c x d with ⟨-, he⟩ | ⟨-, he⟩
  · rw [← he] at hx
    rw [show (s.setClient c x).client d = _ from hp] at hx
    cases hx
  · exact he.symm.trans hp

omit [DecidableEq ι] in
theorem SequentialStep.of_module {m : Memory} {x : Module} {a : Action ι κ}
    {es : List (Event ι κ)} (hnext : Sequential { s with memory := m, module := x })
    (hm : SameBlocks s.memory m) (hes : ∀ e ∈ es, Touches s e) :
    SequentialStep s a es { s with memory := m, module := x } :=
  ⟨hnext, hes, fun _ _ => hm, fun _ => hm.vmem, fun _ _ p hp _ => ⟨hm.vmem, Or.inr ⟨p, hp⟩⟩⟩

variable [DecidableEq κ]

/-- **One step of a sequential run.** -/
theorem sequential_step {s' : State ι κ} {a : Action ι κ} {es : List (Event ι κ)}
    (h : Sequential s) (hg : OneAtATime s a) (hs : step s a = some (es, s')) :
    SequentialStep s a es s' := by
  have hone : ∀ e : Event ι κ, Touches s e → ∀ e' ∈ [e], Touches s e' := by
    intro e he e' he'
    rw [List.mem_singleton.mp he']
    exact he
  cases step_cases hs with
  | openDev c hc hr =>
    refine .of_idle (n := s.nop) rfl (h.bystander (by rw [hc]; rfl) rfl) ?_
    exact hone _ (touches_silent rfl)
  | closeDev c hc =>
    refine .of_idle (n := s.nop) rfl (h.bystander (by rw [hc]; rfl) rfl) ?_
    exact hone _ (touches_silent rfl)
  | ioctl c cmd hc =>
    obtain ⟨hl, hidle⟩ := hg
    have hset := h.settled_of_idle hidle
    refine ⟨?_, hone _ (touches_silent rfl), fun _ _ => ⟨rfl, rfl, rfl⟩, fun _ => rfl, ?_⟩
    · refine .update (m := s.memory) (n := s.nop) (fun d _ => hidle d) (fun _ => hl) ?_
        (Or.inl hset) h.module h.guarded
      intro cmd' p he
      obtain ⟨rfl, rfl⟩ := Client.running.inj he
      exact running_timingUnlockedIoctl hset cmd
    · intro d cmd' p hp _
      refine ⟨rfl, ?_⟩
      rcases setClient_eq_or s c (.running cmd (timingUnlockedIoctl cmd)) d with
        ⟨rfl, he⟩ | ⟨-, he⟩
      · obtain ⟨rfl, -⟩ := Client.running.inj (he.symm.trans hp)
        exact Or.inl rfl
      · exact Or.inr ⟨p, he.symm.trans hp⟩
  | op c env cmd o k r m hc hr =>
    have hb : (s.client c).busy = true := by rw [hc]; rfl
    have hstep : HandlerStep s.memory m cmd (k r) := by
      refine (h.running c cmd _ hc).step (fun n ho => ?_) hr
      subst ho
      exact hg (by rw [hc]; rfl)
    refine ⟨?_, hone _ (h.touches_op hc), fun hset hv => ?_, hstep.vmem, ?_⟩
    · refine .update (h.alone hb) (fun _ => h.loaded c hb) ?_ (Or.inr rfl)
        (h.module.congr (h.loaded c hb) hstep.freed) fun j => (h.guarded j).mono hstep.aligned
      intro cmd' p he
      obtain ⟨rfl, rfl⟩ := Client.running.inj he
      exact hstep.running
    · have hm := hstep.keeps hset (Or.inl hv)
      exact hm ▸ ⟨rfl, rfl, rfl⟩
    · intro d cmd' p hp hprobes
      rcases setClient_eq_or s c (.running cmd (k r)) d with ⟨rfl, he⟩ | ⟨hne, he⟩
      · obtain ⟨rfl, -⟩ := Client.running.inj (he.symm.trans hp)
        refine ⟨?_, Or.inr ⟨_, hc⟩⟩
        have hcmd : cmd ≠ timingIoctlKmalloc := by
          rintro rfl
          cases hprobes
        have hset : Settled s.memory := by
          rcases h.running d cmd _ hc with ⟨hk, -⟩ | ⟨hk, -⟩ | ⟨hk, -⟩ | ⟨hk, -⟩ | ⟨hset, -⟩
          · exact absurd hk hcmd
          · exact absurd hk hcmd
          · exact absurd hk hcmd
          · exact absurd hk hcmd
          · exact hset
        exact congrArg Memory.vmem (hstep.keeps hset (Or.inr hcmd))
      · have hd := h.alone hb d hne
        rw [show s.client d = _ from he.symm.trans hp] at hd
        cases hd
  | fault c env cmd o k hc hr =>
    have hb : (s.client c).busy = true := by rw [hc]; rfl
    have hset := (h.running c cmd _ hc).settled_of_fault hr
    refine .of_idle (n := s.nop) rfl ?_ ?_
    · exact .update (h.alone hb) nofun nofun (Or.inl hset) h.module h.guarded
    · intro e he
      rcases List.mem_cons.mp he with rfl | he
      · exact h.touches_op hc
      · exact hone _ (touches_silent rfl) e he
  | ret c env cmd r hc =>
    have hb : (s.client c).busy = true := by rw [hc]; rfl
    have hset := (h.running c cmd _ hc).settled_of_ret
    refine .of_idle (n := s.nop) rfl ?_ (hone _ (touches_silent rfl))
    exact .update (h.alone hb) nofun nofun (Or.inl hset) h.module h.guarded
  | enterNop c j cmd action es n hc hn =>
    have hb : (s.client c).busy = true := by rw [hc]; rfl
    have hset := (h.running c cmd _ hc).settled_of_ret
    obtain ⟨-, -, rfl⟩ := NopTimer.begin_eq hn
    refine .of_idle rfl ?_ (touches_nop es)
    exact .update (h.alone hb) (fun _ => h.loaded c hb) nofun (Or.inl hset) h.module h.guarded
  | leaveNop c cmd j hc hj =>
    have hb : (s.client c).busy = true := by rw [hc]; rfl
    refine .of_idle (n := s.nop) rfl ?_ (hone _ (touches_silent rfl))
    exact h.leave hc rfl
  | leaveFault c cmd j hc hj =>
    refine .of_idle (n := s.nop) rfl ?_ (hone _ (touches_silent rfl))
    exact h.leave hc rfl
  | nop a mapped es s' hn =>
    obtain ⟨hm, hc, hmod⟩ := nopStep_frame hn
    obtain ⟨hguard, htouch⟩ := nopStep_guarded h.guarded hn
    have hv : s'.memory.vmem = s.memory.vmem := congrArg Memory.vmem hm
    refine ⟨?_, fun e he x hx => ?_, fun _ _ => hm ▸ ⟨rfl, rfl, rfl⟩, fun _ => hv,
      fun c cmd p hp _ => ⟨hv, Or.inr ⟨p, hc ▸ hp⟩⟩⟩
    · refine ⟨fun c d => ?_, fun c => ?_, fun c cmd p => ?_, ?_, ?_, hguard⟩
      · rw [hc]
        exact h.one c d
      · rw [hc, hmod]
        exact h.loaded c
      · rw [hc, hm]
        exact h.running c cmd p
      · rw [hc, hm]
        exact h.settled
      · rw [hm, hmod]
        exact h.module
    · obtain ⟨hx2, hv, f, hf⟩ := htouch e he x hx
      refine ⟨h.settled_of_aligned hv, ?_⟩
      rw [instrAccess_isProbe hf]
      exact ⟨hx2, hv⟩
  | unload hm =>
    have hfreed : s.memory.freed = [] := by
      have hmod := h.module
      rw [hm] at hmod
      exact hmod
    refine .of_module (h.moduleOp ⟨rfl, rfl, rfl⟩ ?_ hg) ⟨rfl, rfl, rfl⟩ nofun
    exact .start rfl hfreed
  | insert env o k r m hm hr =>
    have hidle := h.idle_of_not_loaded (by rw [hm]; rfl)
    have hmod := h.module
    rw [hm] at hmod
    obtain ⟨hkeep, hrest⟩ := hmod.1.step (r := r) trivial
    obtain ⟨hsame, hfreed⟩ := perform_keepsBuffer hkeep hr
    refine .of_module (h.moduleOp hsame ⟨hrest, hfreed.trans hmod.2⟩ hidle) hsame ?_
    exact hone _ (touches_silent rfl)
  | inserted env r hm =>
    have hidle := h.idle_of_not_loaded (by rw [hm]; rfl)
    have hmod := h.module
    rw [hm] at hmod
    refine .of_module (h.moduleOp ⟨rfl, rfl, rfl⟩ ?_ hidle) ⟨rfl, rfl, rfl⟩ nofun
    split <;> exact hmod.2
  | remove env o k r m hm hr =>
    have hidle := h.idle_of_not_loaded (by rw [hm]; rfl)
    have hmod := h.module
    rw [hm] at hmod
    obtain ⟨hsame, hrest⟩ := hmod.step hr
    refine .of_module (h.moduleOp hsame hrest hidle) hsame (hone _ (touches_silent rfl))
  | removed env hm =>
    have hidle := h.idle_of_not_loaded (by rw [hm]; rfl)
    have hmod := h.module
    rw [hm] at hmod
    refine .of_module (h.moduleOp ⟨rfl, rfl, rfl⟩ ?_ hidle) ⟨rfl, rfl, rfl⟩ nofun
    exact hmod.freed_of_ret

/-- The invariant holds after every run of one ioctl after another. -/
theorem sequential_run {G : State ι κ → Action ι κ → Prop} (hG : ∀ s a, G s a → OneAtATime s a)
    {s t : State ι κ} (hs : Sequential s) {evs : List (Event ι κ)}
    (h : system.Run G s evs t) : Sequential t :=
  h.stateInvariant hs fun _ _ _ _ hI hg hstep => (sequential_step hI (hG _ _ hg) hstep).next

end Step

end EcrToolkit.Device
