import EcrToolkit.BufferSequence

/-!
# The buffer over sequential runs

What a sequence of ioctls, each handled after the one before, does with the buffer.
`buffer_invariant`: the two NULL guards agree, the addresses stay where they are
once they are set, there is one block at most, and `timing_cleanup_module` frees it.
`touches_within`: every access through `vmem_aligned` stays in the block, unless
the cache or the memory timing is started with a buffer; these two reach beyond it
(`probes_leave_block`).
-/
namespace EcrToolkit.Device

open AtomicProgram AtomicProgram.Prog

variable {ι κ : Type} [DecidableEq ι] [DecidableEq κ] {s : State ι κ}

/-! ## The two globals -/

/-- What is set stays as it is. -/
theorem Sequential.stable (h : Sequential s) {t : State ι κ} {evs : List (Event ι κ)}
    (hrun : system.Run OneAtATime s evs t) :
    (s.memory.vmem ≠ 0 → t.memory.vmem = s.memory.vmem) ∧
      (s.memory.vmemAligned ≠ 0 → t.memory.vmemAligned = s.memory.vmemAligned) := by
  refine (hrun.stateInvariant (I := fun t => Sequential t ∧
    (s.memory.vmem ≠ 0 → t.memory.vmem = s.memory.vmem) ∧
    (s.memory.vmemAligned ≠ 0 → t.memory.vmemAligned = s.memory.vmemAligned))
    ⟨h, fun _ => rfl, fun _ => rfl⟩ ?_).2
  rintro u a es u' ⟨hu, hv, ha⟩ hg hstep
  have hnext := sequential_step hu hg hstep
  refine ⟨hnext.next, fun hne => ?_, fun hne => ?_⟩
  · rw [hnext.vmem (by rwa [hv hne]), hv hne]
  · have hune : u.memory.vmemAligned ≠ 0 := by rwa [ha hne]
    have hset := hu.settled_of_aligned hune
    have huv : u.memory.vmem ≠ 0 := fun hz => hune (hset.vmem_eq_zero_iff.mp hz)
    rw [(hnext.stable hset huv).vmemAligned, ha hne]

/-- The two globals agree, and the buffer is aligned and large enough. -/
def BufferOk (m : Memory) : Prop :=
  (m.vmem = 0 ↔ m.vmemAligned = 0) ∧
    (m.vmem ≠ 0 → m.vmem.toNat ≤ m.vmemAligned.toNat ∧
      m.vmemAligned.toNat < m.vmem.toNat + 16 ∧ m.vmemAligned.toNat % 16 = 0 ∧
      m.vmemAligned.toNat + 16 ≤ m.vmem.toNat + kmallocSize)

theorem Settled.bufferOk {m : Memory} (h : Settled m) : BufferOk m := by
  refine ⟨h.vmem_eq_zero_iff, fun hv => ?_⟩
  have hblock := h.block hv
  rw [h.aligned]
  obtain ⟨hle, hlt, hmod⟩ := hblock.aligned
  exact ⟨hle, hlt, hmod, (hblock.within_aligned (Nat.le_refl 16)).2⟩

omit [DecidableEq ι] [DecidableEq κ] in
theorem Sequential.bufferOk (h : Sequential s)
    (hbetween : ∀ c, (s.client c).betweenStores = false) : BufferOk s.memory := by
  rcases h.settled_or with hs | ⟨c, cmd, p, hp, halloc⟩
  · exact hs.bufferOk
  · have hb := hbetween c
    rw [hp] at hb
    rcases halloc with ⟨-, h, -⟩ | ⟨q, -, -, hv, ha, -⟩ | ⟨rfl, -, -, -⟩ | ⟨rfl, -, -, -⟩
    · exact h.bufferOk
    · exact ⟨⟨fun _ => ha, fun _ => hv⟩, fun hne => absurd hv hne⟩
    -- between the two stores
    · cases hb
    · cases hb

omit [DecidableEq ι] [DecidableEq κ] in
theorem Sequential.allocated_le (h : Sequential s) : s.memory.allocated.length ≤ 1 := by
  rcases h.settled_or with hs | ⟨c, cmd, p, -, halloc⟩
  · rw [hs.allocated]
    exact length_blocksOf_le _
  · exact halloc.allocated_le

omit [DecidableEq ι] [DecidableEq κ] in
/-- `kfree` was called once, and released what there was. -/
theorem Sequential.freed_eq (h : Sequential s) (hm : s.module = .removed) :
    s.memory.freed.filter (· ≠ 0) = s.memory.allocated := by
  have hmod := h.module
  rw [hm] at hmod
  have hfreed : s.memory.freed = [s.memory.vmem] := hmod
  have hset := h.settled_of_idle (h.idle_of_not_loaded (by rw [hm]; rfl))
  rw [hfreed, hset.allocated, blocksOf]
  by_cases hv : s.memory.vmem = 0
  · rw [if_pos hv, hv]
    decide
  · rw [if_neg hv]
    exact List.filter_eq_self.mpr fun q hq => by
      rw [List.mem_singleton.mp hq]
      exact decide_eq_true hv

/-- What holds of the buffer after a run of one ioctl after another. -/
structure BufferInvariant (evs : List (Event ι κ)) (s : State ι κ) : Prop where
  /-- Between two commands, and in every state inside a handler but the one between the two
  adjacent stores of `TIMING_IOCTL_KMALLOC`, to `vmem` and to `vmem_aligned`. -/
  ok : (∀ c, (s.client c).betweenStores = false) → BufferOk s.memory
  stable : ∀ evs' t, system.Run OneAtATime s evs' t →
    (s.memory.vmem ≠ 0 → t.memory.vmem = s.memory.vmem) ∧
      (s.memory.vmemAligned ≠ 0 → t.memory.vmemAligned = s.memory.vmemAligned)
  blocks : s.memory.allocated.length ≤ 1
  freed : s.module = .removed → s.memory.freed.filter (· ≠ 0) = s.memory.allocated
  aligned : ∀ e ∈ evs, ∀ x, e.touched = some x → x.1.size = 16 → x.2.toNat % 16 = 0

omit [DecidableEq ι] [DecidableEq κ] in
/-- A 16-byte access is made at the aligned address. -/
theorem Touches.aligned {e : Event ι κ} (h : Touches s e) {x : Access × BitVec 64}
    (hx : e.touched = some x) (hsize : x.1.size = 16) : x.2.toNat % 16 = 0 := by
  obtain ⟨hset, huse⟩ := h x hx
  have hp : isProbe x.1 = false := by
    rcases x with ⟨a, q⟩
    cases a <;> first | rfl | cases hsize
  rw [hp] at huse
  obtain ⟨hq, hne⟩ := huse
  have hv : s.memory.vmem ≠ 0 := fun hz => hne (hset.vmem_eq_zero_iff.mp hz)
  rw [hq, hset.aligned]
  exact (hset.block hv).aligned.2.2

/-- **The buffer under any sequence of ioctls**, whatever `kmalloc` returns. -/
theorem buffer_invariant {evs : List (Event ι κ)} {s : State ι κ}
    (h : system.Run OneAtATime initial evs s) : BufferInvariant evs s := by
  have hseq : Sequential s := sequential_run (fun _ _ => id) sequential_initial h
  refine ⟨hseq.bufferOk, fun evs' t => hseq.stable, hseq.allocated_le, hseq.freed_eq, ?_⟩
  refine (h.invariant (I := fun evs s => Sequential s ∧
    ∀ e ∈ evs, ∀ x, e.touched = some x → x.1.size = 16 → x.2.toNat % 16 = 0)
    ⟨sequential_initial, nofun⟩ ?_).2
  rintro evs s a es s' ⟨hs, hevs⟩ hg hstep
  have hnext := sequential_step hs hg hstep
  refine ⟨hnext.next, fun e he x hx hsize => ?_⟩
  rcases List.mem_append.mp he with he | he
  · exact hevs e he x hx hsize
  · exact (hnext.touches e he).aligned hx hsize

omit [DecidableEq ι] [DecidableEq κ] in
/-- A client allocates the buffer, and the module is removed. -/
def allocateThenRemove (c : ι) : List (Action ι κ) :=
  insmod ++ [.openDev c, .ioctl c timingIoctlKmalloc] ++ steps c 17 0x1008 ++
    [.closeDev c, .unload] ++ List.replicate 5 (.module (answering 0))

theorem buffer_invariant_allocate : ∃ evs s,
    system.Run OneAtATime (initial : State (Fin 1) (Fin 1)) evs s ∧
    s.memory = ⟨0x1008, 0x1010, [0x1008], [0x1008], false⟩ ∧ BufferInvariant evs s := by
  obtain ⟨evs, s, hrun, hs⟩ := Transitions.System.Run.exists_of_exec system OneAtATime
    (initial : State (Fin 1) (Fin 1)) (allocateThenRemove 0)
    (fun _ s => s.memory = ⟨0x1008, 0x1010, [0x1008], [0x1008], false⟩) (by decide +kernel)
  exact ⟨evs, s, hrun, hs, buffer_invariant hrun⟩

/-! ## Bounds -/

/-- The cache and the memory timing are started only while there is no buffer. -/
def NoProbing (s : State ι κ) : Action ι κ → Prop
  | .ioctl _ cmd => probes cmd = true → s.memory.vmem = 0
  | _ => True

instance (s : State ι κ) : ∀ a, Decidable (NoProbing s a)
  | .ioctl _ cmd => inferInstanceAs (Decidable (probes cmd = true → s.memory.vmem = 0))
  | .openDev _ | .handler _ _ | .enterNop _ _ | .leaveNop _ | .closeDev _ | .nop _ _ | .unload
  | .module _ => .isTrue trivial

/-- What the event touches through `vmem_aligned` lies in the block at `vmem`. -/
def Event.InBlock (m : Memory) (e : Event ι κ) : Prop :=
  ∀ x, e.touched = some x → m.vmem ∈ m.allocated ∧ Within m.vmem x.2 x.1.size

/-- No cache or memory handler found a buffer. -/
def ProbesGiveUp (s : State ι κ) : Prop :=
  ∀ c cmd p, s.client c = .running cmd p → probes cmd = true → s.memory.vmem = 0

omit [DecidableEq ι] [DecidableEq κ] in
theorem SequentialStep.probesGiveUp {s' : State ι κ} {a : Action ι κ} {es : List (Event ι κ)}
    (h : SequentialStep s a es s') (hp : ProbesGiveUp s) (ha : NoProbing s a) :
    ProbesGiveUp s' := by
  intro c cmd p hc hcmd
  obtain ⟨hv, rfl | ⟨p', hp'⟩⟩ := h.probing c cmd p hc hcmd
  · exact hv.trans (ha hcmd)
  · exact hv.trans (hp c cmd p' hp' hcmd)

omit [DecidableEq ι] [DecidableEq κ] in
/-- An access other than the probes is at the aligned address, inside the block. -/
theorem Touches.inBlock {e : Event ι κ} (h : Touches s e) (hp : ProbesGiveUp s)
    {x : Access × BitVec 64} (hx : e.touched = some x) :
    Settled s.memory ∧ s.memory.vmem ≠ 0 ∧ Within s.memory.vmem x.2 x.1.size := by
  obtain ⟨hset, huse⟩ := h x hx
  split at huse
  case isTrue =>
    obtain ⟨hv, c, cmd, p, hc, hcmd⟩ := huse
    exact absurd (hp c cmd p hc hcmd) hv
  case isFalse =>
    obtain ⟨hq, hne⟩ := huse
    have hv : s.memory.vmem ≠ 0 := fun hz => hne (hset.vmem_eq_zero_iff.mp hz)
    refine ⟨hset, hv, ?_⟩
    rw [hq, hset.aligned]
    exact (hset.block hv).within_aligned x.1.size_le

/-- **Bounds.**  As long as `TIMING_IOCTL_CACHE` and `TIMING_IOCTL_MEMORY` are issued
only without a buffer, everything touched through `vmem_aligned` lies in the block. -/
theorem touches_within {evs : List (Event ι κ)} {s : State ι κ}
    (h : system.Run (fun s a => OneAtATime s a ∧ NoProbing s a) initial evs s) :
    ∀ e ∈ evs, e.InBlock s.memory := by
  suffices hmain : Sequential s ∧ ProbesGiveUp s ∧ ∀ e ∈ evs, ∀ x, e.touched = some x →
      Settled s.memory ∧ s.memory.vmem ≠ 0 ∧ Within s.memory.vmem x.2 x.1.size by
    intro e he x hx
    obtain ⟨hset, hv, hwithin⟩ := hmain.2.2 e he x hx
    exact ⟨(hset.alignedInBlock hv).1, hwithin⟩
  refine h.invariant (I := fun evs s => Sequential s ∧ ProbesGiveUp s ∧
    ∀ e ∈ evs, ∀ x, e.touched = some x →
      Settled s.memory ∧ s.memory.vmem ≠ 0 ∧ Within s.memory.vmem x.2 x.1.size)
    ⟨sequential_initial, nofun, nofun⟩ ?_
  rintro evs s a es s' ⟨hs, hp, hevs⟩ ⟨hone, hprobe⟩ hstep
  have hnext := sequential_step hs hone hstep
  refine ⟨hnext.next, hnext.probesGiveUp hp hprobe, fun e he x hx => ?_⟩
  have htouch : Settled s.memory ∧ s.memory.vmem ≠ 0 ∧
      Within s.memory.vmem x.2 x.1.size := by
    rcases List.mem_append.mp he with he | he
    · exact hevs e he x hx
    · exact (hnext.touches e he).inBlock hp hx
  -- the block is the same after the step
  obtain ⟨hset, hv, hwithin⟩ := htouch
  have hsame := hnext.stable hset hv
  refine ⟨hset.congr hsame, ?_, ?_⟩
  · rw [hsame.vmem]
    exact hv
  · rw [hsame.vmem]
    exact hwithin

omit [DecidableEq ι] [DecidableEq κ] in
/-- The buffer is allocated, and the flush loops run up to the first `clflush`. -/
def allocateThenFlush (c : ι) : List (Action ι κ) :=
  insmod ++ [.openDev c, .ioctl c timingIoctlKmalloc] ++ steps c 17 0x1008 ++
    [.ioctl c timingIoctlWallFl] ++ steps c 7 0

theorem touches_within_flush : ∃ evs s,
    system.Run (fun s a => OneAtATime s a ∧ NoProbing s a)
      (initial : State (Fin 1) (Fin 1)) evs s ∧
    .op 0 (.access .vmemAligned .clflush 0x1010) ∈ evs ∧ ∀ e ∈ evs, e.InBlock s.memory := by
  obtain ⟨evs, s, hrun, he⟩ := Transitions.System.Run.exists_of_exec system
    (fun s a => OneAtATime s a ∧ NoProbing s a) (initial : State (Fin 1) (Fin 1))
    (allocateThenFlush 0) (fun evs _ => .op 0 (.access .vmemAligned .clflush 0x1010) ∈ evs)
    (by decide +kernel)
  exact ⟨evs, s, hrun, he, touches_within hrun⟩

/-! ## The probes -/

/-- An address `KMALLOC_SIZE` or more beyond the aligned one is not in the block. -/
theorem Block.not_within {p : BitVec 64} (h : Block p) {d n : Nat} (hd : kmallocSize ≤ d)
    (hlt : d < 2 ^ 63) (hn : 0 < n) : ¬ Within p (alignVmem p + BitVec.ofNat 64 d) n := by
  obtain ⟨hle, hlt', -⟩ := h.aligned
  have hq : (alignVmem p + BitVec.ofNat 64 d).toNat = ((alignVmem p).toNat + d) % 2 ^ 64 := by
    rw [BitVec.toNat_add, BitVec.toNat_ofNat, Nat.add_mod_mod]
  have hp := p.isLt
  have ha := (alignVmem p).isLt
  have hsize : kmallocSize = 512 := rfl
  rintro ⟨h1, h2⟩
  rw [hq] at h1 h2
  omega

/-- The operation touches bytes outside the block. -/
def LeavesBlock (m : Memory) (o : Op) : Prop :=
  ∃ a q, o = .access .vmemAligned a q ∧ ¬ Within m.vmem q a.size

/-- **The condition is exact.**  A cache or memory handler that finds a buffer cannot
return without touching bytes outside it: the second offset of the cache timing is 64
elements of 8 bytes, and the second page of the memory timing is 4096 bytes away. -/
theorem probes_leave_block {m : Memory} (h : Settled m) (hv : m.vmem ≠ 0) {cmd : BitVec 32}
    (hcmd : probes cmd = true) :
    Performs (Answers m) (LeavesBlock m) (timingUnlockedIoctl cmd) := by
  have hblock := h.block hv
  have hleaves : ∀ (acc : Access) (d : Nat), kmallocSize ≤ d → d < 2 ^ 63 →
      LeavesBlock m (.access .vmemAligned acc (m.vmemAligned + BitVec.ofNat 64 d)) := by
    intro acc d hd hlt
    refine ⟨acc, _, rfl, ?_⟩
    rw [h.aligned]
    exact hblock.not_within hd hlt acc.size_pos
  have hbuffer : ∀ r start, Performs (Answers m) (LeavesBlock m) start →
      Performs (Answers m) (LeavesBlock m) (bufferCommand r start) := by
    intro r start hstart
    refine Or.inr fun _ _ => Or.inr fun (v : BitVec 64) hvm => ?_
    obtain rfl : v = m.vmem := hvm
    show Performs _ _ (if m.vmem = 0 then _ else _)
    rw [if_neg hv]
    exact performs_bind_left hstart
  have hcache : Performs (Answers m) (LeavesBlock m) cacheTimingStart := by
    refine performs_bind_right fun _ => performs_bind_left (performs_bind_left ?_)
    refine performs_bind_left (Or.inr fun (a : BitVec 64) ha => Or.inl ?_)
    obtain rfl : a = m.vmemAligned := ha
    exact hleaves .flush 512 (Nat.le_refl _) (by decide)
  have hmemory : Performs (Answers m) (LeavesBlock m) memoryTimingStart := by
    refine Or.inr fun (a : BitVec 64) ha => ?_
    obtain rfl : a = m.vmemAligned := ha
    refine performs_bind_left (p := Prog.forLoop 10 () _) ?_
    refine performs_bind_right fun _ => performs_bind_left ?_
    exact Or.inl (hleaves .probe 4096 (by decide) (by decide))
  rcases Bool.or_eq_true_iff.mp hcmd with hc | hc
  · obtain rfl := beq_iff_eq.mp hc
    exact Or.inr fun _ _ => hbuffer _ _ hcache
  · obtain rfl := beq_iff_eq.mp hc
    exact Or.inr fun _ _ => hbuffer _ _ hmemory

omit [DecidableEq ι] [DecidableEq κ] in
/-- The buffer is allocated, and the memory timing runs up to its second page. -/
def allocateThenProbe (c : ι) : List (Action ι κ) :=
  insmod ++ [.openDev c, .ioctl c timingIoctlKmalloc] ++ steps c 17 0x1000 ++
    [.ioctl c timingIoctlMemory] ++ steps c 8 0

/-- With a buffer of 512 bytes at `0x1000` the memory timing loads from `0x2000`. -/
theorem probe_leaves_block : ∃ evs s,
    system.Run OneAtATime (initial : State (Fin 1) (Fin 1)) evs s ∧
    s.memory.vmem = 0x1000 ∧ .op 0 (.access .vmemAligned .probe 0x2000) ∈ evs ∧
      ¬ ∀ e ∈ evs, e.InBlock s.memory := by
  obtain ⟨evs, s, hrun, hv, he⟩ := Transitions.System.Run.exists_of_exec system OneAtATime
    (initial : State (Fin 1) (Fin 1)) (allocateThenProbe 0)
    (fun evs s => s.memory.vmem = 0x1000 ∧ .op 0 (.access .vmemAligned .probe 0x2000) ∈ evs)
    (by decide +kernel)
  refine ⟨evs, s, hrun, hv, he, fun hall => ?_⟩
  have hwithin := (hall _ he _ rfl).2
  rw [hv] at hwithin
  exact absurd hwithin (by decide)

end EcrToolkit.Device
