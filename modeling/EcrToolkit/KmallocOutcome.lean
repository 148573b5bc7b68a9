import EcrToolkit.BufferBounds

/-!
# The outcome of `TIMING_IOCTL_KMALLOC`

`call` runs a handler from beginning to end in memory with given contents.  The handler
decides whether the allocation succeeded from two words it loads through `vmem` and
`vmem_aligned` (`kmallocFailed`), not from the two pointers.  So what it returns depends on
what happens to be in the block, and with a NULL pointer it faults
(`kmalloc_outcome_iff`).
-/
namespace EcrToolkit.Device

open AtomicProgram

variable {env : Env} {content : BitVec 64 → BitVec 64} {m m' : Memory} {α β : Type}

/-! ## A call of a handler -/

/-- What an operation finds: a word of memory is what `content` says. -/
def envAt (env : Env) (content : BitVec 64 → BitVec 64) : Op → Env
  | .access _ _ p => { env with mapped := true, loaded := content p }
  | _ => env

/-- Run the code to its end, with nobody else running; `none` is a fault. -/
def call (env : Env) (content : BitVec 64 → BitVec 64) (m : Memory) :
    Code α → Option (α × Memory)
  | .ret a => some (a, m)
  | .op o k => (perform (envAt env content o) m o).bind fun r => call env content r.2 (k r.1)

theorem call_bind (p : Code α) (q : α → Code β) : call env content m (p.bind q) =
    (call env content m p).bind fun r => call env content r.2 (q r.1) := by
  induction p generalizing m with
  | ret a => rfl
  | op o k ih =>
    rw [Prog.bind, call, call, Option.bind_assoc]
    exact congrArg _ (funext fun r => ih r.1)

/-- **A call is a run of the system**, in which only the handler of `c` takes steps. -/
theorem run_of_call {ι κ : Type} [DecidableEq ι] [DecidableEq κ] {s : State ι κ} {c : ι}
    {cmd : BitVec 32} {p : Code Return} (hc : s.client c = .running cmd p) {r : Return}
    (h : call env content s.memory p = some (r, m')) :
    ∃ evs s', system.Run (fun _ a => ∃ env, a = .handler c env) s evs s' ∧
      s'.client c = .running cmd (.ret r) ∧ s'.memory = m' := by
  induction p generalizing s with
  | ret a =>
    obtain ⟨rfl, rfl⟩ := Prod.mk.inj (Option.some.inj h)
    exact ⟨[], s, .start, hc, rfl⟩
  | op o k ih =>
    obtain ⟨r', hr', h'⟩ := Option.bind_eq_some_iff.mp h
    have hstep : system.step s (.handler c (envAt env content o)) = some ([.op c o],
        { s.setClient c (.running cmd (k r'.1)) with memory := r'.2 }) := by
      show handlerStep s c _ = _
      rw [handlerStep, hc]
      simp only [hr']
    obtain ⟨evs, s', hrun, hs'⟩ := ih r'.1
      (s := { s.setClient c (.running cmd (k r'.1)) with memory := r'.2 })
      (Function.update_self ..) h'
    exact ⟨_, s', .trans (.step .start ⟨_, rfl⟩ hstep) hrun, hs'⟩

/-! ## `TIMING_IOCTL_KMALLOC` -/

/-- `vmem` and `vmem_aligned` once `kmalloc`, if it is called, has returned `p`. -/
def Memory.buffer (m : Memory) (p : BitVec 64) : BitVec 64 × BitVec 64 :=
  if m.vmem = 0 then (p, alignVmem p) else (m.vmem, m.vmemAligned)

/-- The memory then. -/
def Memory.allocate (m : Memory) (p : BitVec 64) : Memory :=
  if m.vmem = 0 then { m.obtain p with vmem := p, vmemAligned := alignVmem p } else m

theorem Memory.allocate_vmem (m : Memory) (p : BitVec 64) :
    (m.allocate p).vmem = (m.buffer p).1 := by
  unfold allocate buffer
  split <;> rfl

theorem Memory.allocate_vmemAligned (m : Memory) (p : BitVec 64) :
    (m.allocate p).vmemAligned = (m.buffer p).2 := by
  unfold allocate buffer
  split <;> rfl

/-- A load through a pointer. -/
theorem call_access {via : Pointer} {q : BitVec 64} {k : BitVec 64 → Code α} :
    call env content m ((access via .word q).bind k) =
      if q = 0 then none else call env content m (k (content q)) := by
  have hperform : perform (envAt env content (.access via .word q)) m (.access via .word q) =
      if q ≠ 0 ∧ true = true then some (content q, m) else none := rfl
  show Option.bind (perform _ m _) _ = _
  rw [hperform]
  by_cases hq : q = 0
  · rw [if_pos hq, if_neg fun h => h.1 hq]
    rfl
  · rw [if_neg hq, if_pos ⟨hq, rfl⟩]
    rfl

/-- The two loads, each of which faults if its pointer is NULL. -/
theorem call_kmallocFailed : call env content m kmallocFailed =
    if m.vmem = 0 then none
    else if content m.vmem = 0 then some (true, m)
    else if m.vmemAligned = 0 then none
    else some (decide (content m.vmemAligned = 0), m) := by
  refine call_access.trans ?_
  split
  case isTrue => rfl
  case isFalse =>
    show call env content m (if content m.vmem = 0 then _ else _) = _
    split
    case isTrue => rfl
    case isFalse => exact call_access

/-- What the handler does once the pointers are set. -/
theorem call_kmallocVerify : call env content m kmallocVerify =
    if m.vmem = 0 then none
    else if content m.vmem = 0 then some (.value (-eFault), m)
    else if m.vmemAligned = 0 then none
    else if content m.vmemAligned = 0 then some (.value (-eFault), m)
    else some (.value 0, m) := by
  refine (call_bind _ _).trans ?_
  rw [call_kmallocFailed]
  by_cases hv : m.vmem = 0
  · rw [if_pos hv, if_pos hv]
    rfl
  rw [if_neg hv, if_neg hv]
  by_cases hx : content m.vmem = 0
  · rw [if_pos hx, if_pos hx]
    rfl
  rw [if_neg hx, if_neg hx]
  by_cases ha : m.vmemAligned = 0
  · rw [if_pos ha, if_pos ha]
    rfl
  rw [if_neg ha, if_neg ha]
  by_cases hy : content m.vmemAligned = 0
  · rw [if_pos hy, decide_eq_true hy]
    rfl
  · rw [if_neg hy, decide_eq_false hy]
    -- the record repeats the two loads
    refine (call_access (q := m.vmem)).trans ?_
    rw [if_neg hv]
    refine (call_access (q := m.vmemAligned)).trans ?_
    rw [if_neg ha]
    rfl

theorem call_kmalloc : call env content m (timingUnlockedIoctl timingIoctlKmalloc) =
    call env content (m.allocate env.kmalloc) kmallocVerify := by
  show call env content m (if m.vmem = 0 then kmallocAllocate else kmallocVerify) = _
  unfold Memory.allocate
  split
  case isTrue => rfl
  case isFalse => rfl

/-- Without a buffer the cache and the memory timing are refused. -/
theorem call_refused (hv : m.vmem = 0) {cmd : BitVec 32} (hcmd : probes cmd = true) :
    call env content m (timingUnlockedIoctl cmd) = some (.value (-eFault), m) := by
  rcases Bool.or_eq_true_iff.mp hcmd with h | h
  · obtain rfl := beq_iff_eq.mp h
    show call env content m (if m.vmem = 0 then _ else _) = _
    rw [if_pos hv]
    rfl
  · obtain rfl := beq_iff_eq.mp h
    show call env content m (if m.vmem = 0 then _ else _) = _
    rw [if_pos hv]
    rfl

/-- What `TIMING_IOCTL_KMALLOC` promises: it does not fault, it returns `0` exactly with
a buffer and `-EFAULT` exactly without one, and after `-EFAULT` everything is as before. -/
def KmallocOutcome (env : Env) (content : BitVec 64 → BitVec 64) (m : Memory) : Prop :=
  ∃ r m', call env content m (timingUnlockedIoctl timingIoctlKmalloc) = some (.value r, m') ∧
    (r = 0 ↔ m'.vmem ≠ 0) ∧ (r = -eFault ↔ m'.vmem = 0) ∧
    (r = -eFault → m'.vmem = m.vmem ∧ m'.vmemAligned = m.vmemAligned ∧
      ∀ cmd, probes cmd = true → ∀ env content,
        call env content m' (timingUnlockedIoctl cmd) = some (.value (-eFault), m'))

/-- **When `TIMING_IOCTL_KMALLOC` keeps its promise**: there is a buffer, and neither of
the two words it loads from it is zero. -/
theorem kmalloc_outcome_iff (env : Env) (content : BitVec 64 → BitVec 64) (m : Memory) :
    KmallocOutcome env content m ↔
      ((m.buffer env.kmalloc).1 ≠ 0 ∧ (m.buffer env.kmalloc).2 ≠ 0) ∧
        content (m.buffer env.kmalloc).1 ≠ 0 ∧ content (m.buffer env.kmalloc).2 ≠ 0 := by
  unfold KmallocOutcome
  rw [call_kmalloc, call_kmallocVerify, ← Memory.allocate_vmem, ← Memory.allocate_vmemAligned]
  generalize m.allocate env.kmalloc = n
  have herror : -eFault ≠ 0 := by decide
  constructor
  · rintro ⟨r, m', hcall, hzero, hfault, -⟩
    by_cases hv : n.vmem = 0
    · rw [if_pos hv] at hcall
      cases hcall
    rw [if_neg hv] at hcall
    -- an error with a buffer breaks the promise
    have hno : some (Return.value (-eFault), n) ≠ some (Return.value r, m') := by
      rintro ⟨⟩
      exact hv (hfault.mp rfl)
    by_cases hx : content n.vmem = 0
    · rw [if_pos hx] at hcall
      exact absurd hcall hno
    rw [if_neg hx] at hcall
    by_cases ha : n.vmemAligned = 0
    · rw [if_pos ha] at hcall
      cases hcall
    rw [if_neg ha] at hcall
    by_cases hy : content n.vmemAligned = 0
    · rw [if_pos hy] at hcall
      exact absurd hcall hno
    exact ⟨⟨hv, ha⟩, hx, hy⟩
  · rintro ⟨⟨hv, ha⟩, hx, hy⟩
    rw [if_neg hv, if_neg hx, if_neg ha, if_neg hy]
    refine ⟨0, n, rfl, ?_, ?_, ?_⟩
    · exact iff_of_true rfl hv
    · exact iff_of_false herror.symm hv
    · intro h
      exact absurd h herror.symm

/-- **A fresh block of zeroes** makes it return `-EFAULT` and keep the block. -/
theorem kmalloc_outcome_fails : ¬ ∀ (evs : List (Event (Fin 1) (Fin 1))) s,
    system.Run OneAtATime (initial : State (Fin 1) (Fin 1)) evs s →
      ∀ env content, KmallocOutcome env content s.memory := by
  intro hall
  obtain ⟨evs, s, hrun, hs⟩ := Transitions.System.Run.exists_of_exec system OneAtATime
    (initial : State (Fin 1) (Fin 1)) insmod (fun _ s => s.memory = ⟨0, 0, [], [], true⟩)
    (by decide +kernel)
  have h := hall evs s hrun (answering 0x1008) fun _ => 0
  rw [kmalloc_outcome_iff] at h
  exact h.2.1 rfl

end EcrToolkit.Device
