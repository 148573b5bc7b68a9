import EcrToolkit.Device

/-!
# The buffer and what the handlers do with it

`vmem` holds the block `kmalloc` returned and `vmem_aligned` the first 16-byte
aligned address in it.  Between two commands the two globals agree (`Settled`);
a handler of `TIMING_IOCTL_KMALLOC` that found `vmem` NULL goes through the
states of `Allocating` in between.

`Allows` collects what the other handlers need of the operations, and
`safe_timingUnlockedIoctl` says that they perform no others.
-/
namespace EcrToolkit.Device

open AtomicProgram AtomicProgram.Prog

/-! ## Alignment -/

/-- Masking the low four bits shifts them out and back. -/
theorem and_not_fifteen (x : BitVec 64) : x &&& ~~~(0x0F : BitVec 64) = (x >>> 4) <<< 4 := by
  apply BitVec.eq_of_getLsbD_eq
  intro i hi
  have h15 : (0x0F : BitVec 64).getLsbD i = decide (i < 4) := by
    show Nat.testBit 15 i = decide (i < 4)
    exact Nat.testBit_two_pow_sub_one 4 i
  rw [BitVec.getLsbD_and, BitVec.getLsbD_not, BitVec.getLsbD_shiftLeft,
    BitVec.getLsbD_ushiftRight, h15]
  by_cases h : i < 4
  · simp [h]
  · have hback : 4 + (i - 4) = i := by omega
    simp [h, hi, hback]

theorem toNat_and_not_fifteen (x : BitVec 64) :
    (x &&& ~~~(0x0F : BitVec 64)).toNat = x.toNat / 16 * 16 := by
  have hx := x.isLt
  rw [and_not_fifteen, BitVec.toNat_shiftLeft, BitVec.toNat_ushiftRight, Nat.shiftLeft_eq,
    Nat.shiftRight_eq_div_pow]
  omega

/-- A block address `kmalloc` can return. -/
def Block (p : BitVec 64) : Prop := p ≠ 0 ∧ p.toNat + kmallocSize ≤ 2 ^ 64

instance (p : BitVec 64) : Decidable (Block p) := inferInstanceAs (Decidable (_ ∧ _))

/-- The `n` bytes at `q` lie in the block at `p`. -/
def Within (p q : BitVec 64) (n : Nat) : Prop :=
  p.toNat ≤ q.toNat ∧ q.toNat + n ≤ p.toNat + kmallocSize

instance (p q : BitVec 64) (n : Nat) : Decidable (Within p q n) :=
  inferInstanceAs (Decidable (_ ∧ _))

theorem toNat_alignVmem {p : BitVec 64} (h : p.toNat + kmallocSize ≤ 2 ^ 64) :
    (alignVmem p).toNat = (p.toNat + 15) / 16 * 16 := by
  have hsum : (p + 15).toNat = p.toNat + 15 := by
    rw [BitVec.toNat_add]
    show (p.toNat + 15) % 2 ^ 64 = p.toNat + 15
    have hsize : kmallocSize = 512 := rfl
    omega
  rw [alignVmem, toNat_and_not_fifteen, hsum]

theorem alignVmem_zero : alignVmem 0 = 0 := by decide

/-- **The aligned address lies in the first 16 bytes of the block, on a multiple of 16.** -/
theorem Block.aligned {p : BitVec 64} (h : Block p) :
    p.toNat ≤ (alignVmem p).toNat ∧ (alignVmem p).toNat < p.toNat + 16 ∧
      (alignVmem p).toNat % 16 = 0 := by
  rw [toNat_alignVmem h.2]
  omega

theorem Block.alignVmem_ne_zero {p : BitVec 64} (h : Block p) : alignVmem p ≠ 0 := by
  intro hz
  have hle := h.aligned.1
  rw [hz] at hle
  exact h.1 (BitVec.eq_of_toNat_eq (Nat.le_zero.mp hle))

/-- An access of at most 16 bytes at the aligned address stays in the block. -/
theorem Block.within_aligned {p : BitVec 64} (h : Block p) {n : Nat} (hn : n ≤ 16) :
    Within p (alignVmem p) n := by
  obtain ⟨hle, hlt, -⟩ := h.aligned
  have hsize : kmallocSize = 512 := rfl
  exact ⟨hle, by omega⟩

/-! ## The two globals -/

/-- The blocks obtained by a `kmalloc` that returned `p`. -/
def blocksOf (p : BitVec 64) : List (BitVec 64) := if p = 0 then [] else [p]

theorem length_blocksOf_le (p : BitVec 64) : (blocksOf p).length ≤ 1 := by
  unfold blocksOf
  split <;> simp

/-- The globals agree: there is no block, or one, and `vmem_aligned` is aligned in it. -/
structure Settled (m : Memory) : Prop where
  outcome : m.vmem = 0 ∨ Block m.vmem
  aligned : m.vmemAligned = alignVmem m.vmem
  allocated : m.allocated = blocksOf m.vmem

theorem Settled.zero : Settled .zero := ⟨Or.inl rfl, by decide, rfl⟩

theorem Settled.block {m : Memory} (h : Settled m) (hv : m.vmem ≠ 0) : Block m.vmem :=
  h.outcome.resolve_left hv

/-- **The two NULL guards agree.** -/
theorem Settled.vmem_eq_zero_iff {m : Memory} (h : Settled m) :
    m.vmem = 0 ↔ m.vmemAligned = 0 := by
  rw [h.aligned]
  refine ⟨fun hz => by rw [hz, alignVmem_zero], fun hz => ?_⟩
  rcases h.outcome with hv | hv
  · exact hv
  · exact absurd hz hv.alignVmem_ne_zero

/-- The states of a handler of `TIMING_IOCTL_KMALLOC` from the moment it found
`vmem` NULL to its store to `vmem_aligned`.  `P` is what `kmalloc` may return. -/
inductive Allocating (P : BitVec 64 → Prop) (m : Memory) (p : Code Return) : Prop
  | allocate (hp : p = kmallocAllocate) (h : Settled m) (hv : m.vmem = 0)
  | store (q : BitVec 64) (hp : p = kmallocStore q) (hq : P q) (hv : m.vmem = 0)
      (ha : m.vmemAligned = 0) (hb : m.allocated = blocksOf q)
  | reload (hp : p = .op .readVmem kmallocPublish) (hq : P m.vmem) (ha : m.vmemAligned = 0)
      (hb : m.allocated = blocksOf m.vmem)
  | publish (hp : p = kmallocPublish m.vmem) (hq : P m.vmem) (ha : m.vmemAligned = 0)
      (hb : m.allocated = blocksOf m.vmem)

theorem kmallocAllocate_eq : kmallocAllocate = .op (.kmalloc kmallocSize) kmallocStore := rfl

theorem kmallocStore_eq (q : BitVec 64) :
    kmallocStore q = .op (.writeVmem q) fun _ => .op .readVmem kmallocPublish := rfl

theorem kmallocPublish_eq (v : BitVec 64) :
    kmallocPublish v = .op (.writeVmemAligned (alignVmem v)) fun _ => kmallocVerify := rfl

/-- The handler of `TIMING_IOCTL_KMALLOC` before its check, and at it. -/
theorem timingUnlockedIoctl_kmalloc : timingUnlockedIoctl timingIoctlKmalloc =
    .op (.prInfo (.commandReceived timingIoctlKmalloc)) fun _ => kmallocCommand := rfl

/-- The check `if ( !vmem )`. -/
def kmallocCheck : Code Return :=
  .op .readVmem fun (v : BitVec 64) => if v = 0 then kmallocAllocate else kmallocVerify

theorem kmallocCommand_eq :
    kmallocCommand = .op (.prInfo .allocatingMemory) fun _ => kmallocCheck := rfl

theorem Allocating.allocated_le {P : BitVec 64 → Prop} {m : Memory} {p : Code Return}
    (h : Allocating P m p) : m.allocated.length ≤ 1 := by
  rcases h with ⟨-, h, -⟩ | ⟨q, -, -, -, -, hb⟩ | ⟨-, -, -, hb⟩ | ⟨-, -, -, hb⟩
  · rw [h.allocated]
    exact length_blocksOf_le _
  all_goals
    rw [hb]
    exact length_blocksOf_le _

/-- What one operation of an allocating handler leads to. -/
structure AllocatingStep (P : BitVec 64 → Prop) (m m' : Memory) (p' : Code Return) : Prop where
  freed : m'.freed = m.freed
  registered : m'.registered = m.registered
  next : Allocating P m' p' ∨ (Settled m' ∧ p' = kmallocVerify)

/-- **The allocation**: from the check to the store of `vmem_aligned`, one
operation at a time. -/
theorem Allocating.step {P : BitVec 64 → Prop} (hP : ∀ q, P q → q = 0 ∨ Block q)
    {m m' : Memory} {o : Op} {k : o.Res → Code Return} {r : o.Res} {env : Env}
    (h : Allocating P m (.op o k)) (henv : ∀ n, o = .kmalloc n → P env.kmalloc)
    (hr : perform env m o = some (r, m')) : AllocatingStep P m m' (k r) := by
  rcases h with ⟨hp, h, hv⟩ | ⟨q, hp, hq, hv, ha, hb⟩ | ⟨hp, hq, ha, hb⟩ | ⟨hp, hq, ha, hb⟩
  · rw [kmallocAllocate_eq] at hp
    cases hp
    cases hr
    have henv := henv _ rfl
    have ha : m.vmemAligned = 0 := h.vmem_eq_zero_iff.mp hv
    have hb : m.allocated = [] := by rw [h.allocated, hv]; rfl
    by_cases hq : env.kmalloc = 0
    · have hm : m.obtain env.kmalloc = m := if_pos hq
      rw [hm]
      refine ⟨rfl, rfl, Or.inl (.store env.kmalloc rfl henv hv ha ?_)⟩
      rw [hb, hq]
      rfl
    · have hm : m.obtain env.kmalloc = { m with allocated := env.kmalloc :: m.allocated } :=
        if_neg hq
      rw [hm]
      refine ⟨rfl, rfl, Or.inl (.store env.kmalloc rfl henv hv ha ?_)⟩
      show env.kmalloc :: m.allocated = blocksOf env.kmalloc
      rw [hb, blocksOf, if_neg hq]
  · rw [kmallocStore_eq] at hp
    cases hp
    cases hr
    exact ⟨rfl, rfl, Or.inl (.reload rfl hq ha hb)⟩
  · cases hp
    cases hr
    exact ⟨rfl, rfl, Or.inl (.publish rfl hq ha hb)⟩
  · rw [kmallocPublish_eq] at hp
    cases hp
    cases hr
    exact ⟨rfl, rfl, Or.inr ⟨⟨hP _ hq, rfl, hb⟩, rfl⟩⟩

/-- No operation of an allocating handler can fault. -/
theorem Allocating.no_fault {P : BitVec 64 → Prop} {m : Memory} {o : Op}
    {k : o.Res → Code Return} {env : Env} (h : Allocating P m (.op o k)) :
    perform env m o ≠ none := by
  rcases h with ⟨hp, -, -⟩ | ⟨q, hp, -, -, -, -⟩ | ⟨hp, -, -, -⟩ | ⟨hp, -, -, -⟩
  · rw [kmallocAllocate_eq] at hp
    cases hp
    nofun
  · rw [kmallocStore_eq] at hp
    cases hp
    nofun
  · cases hp
    nofun
  · rw [kmallocPublish_eq] at hp
    cases hp
    nofun

/-! ## The other handlers -/

/-- The operation touches neither the globals nor memory. -/
def inert : Op → Bool
  | .readVmem | .readVmemAligned | .prInfo _ | .prAlert _ | .execute _ | .getnstimeofday
  | .msleep | .bootCpuHas _ | .cpuidVmx | .localIrqSave | .localIrqDisable | .localIrqRestore _
  | .localIrqEnable => true
  | _ => false

/-- The operation leaves `Memory` as it is. -/
def keepsMemory (o : Op) : Bool :=
  match o with
  | .access _ _ _ => true
  | o => inert o

theorem perform_keepsMemory {env : Env} {m m' : Memory} {o : Op} {r : o.Res}
    (ho : keepsMemory o = true) (h : perform env m o = some (r, m')) : m' = m := by
  cases o
  case access via a p =>
    simp only [perform] at h
    split at h <;> cases h
    rfl
  all_goals first | (cases h; rfl) | cases ho

/-- `TIMING_IOCTL_CACHE` and `TIMING_IOCTL_MEMORY`. -/
def probes (cmd : BitVec 32) : Bool := cmd == timingIoctlCache || cmd == timingIoctlMemory

/-- What a handler of `cmd`, other than the allocating one, must be allowed to do:
accesses by the guarded timing loops once `vmem_aligned` was not NULL, and the
probes once `vmem` was not NULL. -/
structure Allows (cmd : BitVec 32) (ok : (o : Op) → o.Res → Prop) (φ : Op → Prop) : Prop where
  inert : ∀ o, inert o = true → φ o
  instr : ∀ r r' f a, instrAccess f = some a → ok .readVmemAligned r → r ≠ (0 : BitVec 64) →
    ok .readVmemAligned r' → φ (.access .vmemAligned a r')
  probe : ∀ v a q, probes cmd = true → ok .readVmem v → v ≠ (0 : BitVec 64) →
    a = .flush ∨ a = .probe → φ (.access .vmemAligned a q)

section Allows
variable {cmd : BitVec 32} {ok : (o : Op) → o.Res → Prop} {φ : Op → Prop}

theorem Allows.prInfo (h : Allows cmd ok φ) (r : Record) : Safe ok φ (prInfo r) :=
  safe_op (h.inert _ rfl) fun _ _ => safe_ret _

/-- A function that accesses no memory. -/
theorem Allows.call_inert (h : Allows cmd ok φ) {f : InstrF} (hf : instrAccess f = none) :
    Safe ok φ f.call := by
  cases f
  case movntdqa | movntdq | clflush => cases hf
  all_goals exact safe_op (h.inert _ rfl) fun _ _ => safe_ret _

/-- A function called after `vmem_aligned` was found not NULL. -/
theorem Allows.call (h : Allows cmd ok φ) {r : BitVec 64} (hok : ok .readVmemAligned r)
    (hr : r ≠ 0) (f : InstrF) : Safe ok φ f.call := by
  have hacc : ∀ a, instrAccess f = some a → ∀ r', ok .readVmemAligned r' →
      φ (.access .vmemAligned a r') := fun a ha r' => h.instr r r' f a ha hok hr
  cases f
  case movntdqa | movntdq | clflush =>
    refine safe_op (h.inert _ rfl) fun r' hr' => ?_
    exact safe_op (hacc _ rfl r' hr') fun _ _ => safe_ret _
  all_goals exact h.call_inert rfl

theorem Allows.timingLoop (h : Allows cmd ok φ) {l : TimingLoop}
    (hcall : Safe ok φ l.functionCall.call) : Safe ok φ (timingLoop l) := by
  refine safe_op (h.inert _ rfl) fun _ _ => ?_
  refine (safe_forFrom (fun _ _ => hcall) _ _ _).bind fun _ => ?_
  exact safe_op (h.inert _ rfl) fun _ _ => h.prInfo _

/-- The loops that access memory are guarded by `vmem_aligned`. -/
def LoopGuarded (l : TimingLoop) : Prop :=
  instrAccess l.functionCall = none ∨ l.guard = .kmalloc

instance (l : TimingLoop) : Decidable (LoopGuarded l) := inferInstanceAs (Decidable (_ ∨ _))

theorem standardLoops_guarded : ∀ l ∈ standardLoops, LoopGuarded l := by decide

theorem flushLoops_guarded : ∀ l ∈ flushLoops, LoopGuarded l := by decide

theorem Allows.wallTimingLoop (h : Allows cmd ok φ) {l : TimingLoop} (hl : LoopGuarded l) :
    Safe ok φ (wallTimingLoop l) := by
  have hplain : l.guard ≠ .kmalloc → Safe ok φ (EcrToolkit.timingLoop l) := fun hg =>
    h.timingLoop (h.call_inert (hl.resolve_right hg))
  unfold EcrToolkit.wallTimingLoop
  split
  case h_1 hg => exact hplain (by rw [hg]; nofun)
  case h_2 hg =>
    refine safe_op (h.inert _ rfl) fun _ _ => safe_op (h.inert _ rfl) fun _ _ => ?_
    refine (hplain (by rw [hg]; nofun)).bind fun _ => ?_
    exact safe_op (h.inert _ rfl) fun _ _ => safe_op (h.inert _ rfl) fun _ _ => safe_ret _
  case h_3 f hg =>
    refine safe_op (h.inert _ rfl) fun (has : Bool) _ => ?_
    show Safe ok φ (if has = true then EcrToolkit.timingLoop l else .ret ())
    split
    · exact hplain (by rw [hg]; nofun)
    · exact safe_ret _
  case h_4 =>
    refine safe_op (h.inert _ rfl) fun (r : BitVec 64) hr => ?_
    show Safe ok φ (if r ≠ 0 then EcrToolkit.timingLoop l else EcrToolkit.prInfo _)
    split
    case isTrue hne => exact h.timingLoop (h.call hr hne _)
    case isFalse => exact h.prInfo _

theorem Allows.wallTimingLoops (h : Allows cmd ok φ) {ls : List TimingLoop}
    (hls : ∀ l ∈ ls, LoopGuarded l) : Safe ok φ (wallTimingLoops ls) := by
  induction ls with
  | nil => exact safe_ret _
  | cons l ls ih =>
    rw [List.forall_mem_cons] at hls
    exact (h.wallTimingLoop hls.1).bind fun _ => ih hls.2

theorem Allows.wallTimingStart (h : Allows cmd ok φ) : Safe ok φ wallTimingStart := by
  refine safe_op (h.inert _ rfl) fun (vmx : Bool) _ => ?_
  refine Safe.bind ?_ fun _ => ?_
  · show Safe ok φ (if vmx = true then EcrToolkit.prInfo _ else EcrToolkit.prInfo _)
    split <;> exact h.prInfo _
  · refine safe_op (h.inert _ rfl) fun _ _ => ?_
    exact (h.wallTimingLoops standardLoops_guarded).bind fun _ => safe_ret _

theorem Allows.bufferFlushStart (h : Allows cmd ok φ) : Safe ok φ bufferFlushStart := by
  refine safe_op (h.inert _ rfl) fun _ _ => ?_
  exact (h.wallTimingLoops flushLoops_guarded).bind fun _ => safe_ret _

/-- The probes, where they are allowed. -/
theorem Allows.cacheTimingHandler (h : Allows cmd ok φ)
    (hp : ∀ a q, a = .flush ∨ a = .probe → φ (.access .vmemAligned a q)) (offset : BitVec 32) :
    Safe ok φ (cacheTimingHandler offset) := by
  refine Safe.bind (safe_forFrom (fun _ avg => ?_) _ _ _) fun _ => ?_
  · refine safe_op (h.inert _ rfl) fun _ _ => safe_op (hp _ _ (Or.inl rfl)) fun _ _ => ?_
    refine safe_op (h.inert _ rfl) fun _ _ => safe_op (h.inert _ rfl) fun _ _ => ?_
    exact safe_op (hp _ _ (Or.inr rfl)) fun _ _ => safe_ret _
  · exact safe_op (h.inert _ rfl) fun _ _ => h.prInfo _

theorem Allows.cacheTimingStart (h : Allows cmd ok φ)
    (hp : ∀ a q, a = .flush ∨ a = .probe → φ (.access .vmemAligned a q)) :
    Safe ok φ cacheTimingStart := by
  have hoff := h.cacheTimingHandler hp
  refine (hoff 0).bind fun _ => (hoff 64).bind fun _ => (hoff 128).bind fun _ => ?_
  exact (hoff 256).bind fun _ => (hoff 4096).bind fun _ => safe_ret _

theorem Allows.memoryTimingStart (h : Allows cmd ok φ)
    (hp : ∀ a q, a = .flush ∨ a = .probe → φ (.access .vmemAligned a q)) :
    Safe ok φ memoryTimingStart := by
  refine safe_op (h.inert _ rfl) fun _ _ => ?_
  refine (safe_forFrom (fun _ _ => ?_) _ _ _).bind fun _ => safe_ret _
  refine safe_op (hp _ _ (Or.inr rfl)) fun _ _ => safe_op (hp _ _ (Or.inr rfl)) fun _ _ => ?_
  exact h.prInfo _

theorem Allows.bufferCommand (h : Allows cmd ok φ) (hcmd : probes cmd = true) (r : Record)
    {start : Code Int} (hstart : (∀ a q, a = .flush ∨ a = .probe →
      φ (.access .vmemAligned a q)) → Safe ok φ start) : Safe ok φ (bufferCommand r start) := by
  refine safe_op (h.inert _ rfl) fun _ _ => safe_op (h.inert _ rfl) fun (v : BitVec 64) hv => ?_
  show Safe ok φ (if v = 0 then _ else _)
  split
  case isTrue => exact safe_op (h.inert _ rfl) fun _ _ => safe_ret _
  case isFalse hne =>
    exact (hstart fun a q ha => h.probe v a q hcmd hv hne ha).bind fun _ => safe_ret _

/-- **What a handler does**, unless it handles `TIMING_IOCTL_KMALLOC`. -/
theorem Allows.timingUnlockedIoctl (h : Allows cmd ok φ) (hcmd : cmd ≠ timingIoctlKmalloc) :
    Safe ok φ (timingUnlockedIoctl cmd) := by
  refine safe_op (h.inert _ rfl) fun _ _ => ?_
  show Safe ok φ (if cmd = timingIoctlNop then _ else _)
  split
  · exact safe_op (h.inert _ rfl) fun _ _ => safe_ret _
  split
  · exact safe_op (h.inert _ rfl) fun _ _ => h.wallTimingStart.bind fun _ => safe_ret _
  split
  · exact safe_op (h.inert _ rfl) fun _ _ => safe_ret _
  split
  case isTrue hc =>
    exact h.bufferCommand (by rw [hc]; rfl) _ h.cacheTimingStart
  split
  case isTrue hc =>
    exact h.bufferCommand (by rw [hc]; rfl) _ h.memoryTimingStart
  split
  · exact safe_op (h.inert _ rfl) fun _ _ => h.bufferFlushStart.bind fun _ => safe_ret _
  split
  · exact safe_op (h.inert _ rfl) fun _ _ => safe_ret _
  · exact safe_ret _

/-- The cache and memory handlers give up at a NULL `vmem`, before they use
`vmem_aligned`. -/
theorem safe_probes (hcmd : probes cmd = true) (hok : ∀ v, ok .readVmem v → v = (0 : BitVec 64))
    (hφ : ∀ o, inert o = true → o ≠ .readVmemAligned → φ o) :
    Safe ok φ (EcrToolkit.timingUnlockedIoctl cmd) := by
  have hbuf : ∀ r start, Safe ok φ (EcrToolkit.bufferCommand r start) := by
    intro r start
    refine safe_op (hφ _ rfl nofun) fun _ _ => safe_op (hφ _ rfl nofun) fun v hv => ?_
    obtain rfl : v = (0 : BitVec 64) := hok v hv
    exact safe_op (hφ _ rfl nofun) fun _ _ => safe_ret _
  rcases Bool.or_eq_true_iff.mp hcmd with hc | hc
  all_goals
    obtain rfl := beq_iff_eq.mp hc
    exact safe_op (hφ _ rfl nofun) fun _ _ => hbuf _ _

end Allows

/-- `timing_init_module` registers the device, and logs. -/
theorem safe_timingInitModule {ok : (o : Op) → o.Res → Prop} {φ : Op → Prop}
    (hi : ∀ o, inert o = true → φ o) (hr : φ .miscRegister) : Safe ok φ timingInitModule := by
  refine safe_op (hi _ rfl) fun _ _ => safe_op hr fun (r : Int) _ => ?_
  show Safe ok φ (if r ≠ 0 then _ else _)
  split
  · exact safe_op (hi _ rfl) fun _ _ => safe_ret _
  · exact safe_ret _

/-- What `TIMING_IOCTL_KMALLOC` does once the buffer is there, or `kmalloc` failed:
it reads both words, and `*vmem` first. -/
theorem safe_kmallocVerify {ok : (o : Op) → o.Res → Prop} {φ : Op → Prop}
    (hi : ∀ o, inert o = true → φ o)
    (hv : ∀ v, ok .readVmem v → φ (.access .vmem .word v))
    (ha : ∀ v r a, ok .readVmem v → ok (.access .vmem .word v) r → ok .readVmemAligned a →
      φ (.access .vmemAligned .word a)) : Safe ok φ kmallocVerify := by
  have hfailed : Safe ok φ kmallocFailed := by
    refine safe_op (hi _ rfl) fun v hok => safe_op (hv v hok) fun (x : BitVec 64) hx => ?_
    show Safe ok φ (if x = 0 then .ret true else _)
    split
    · exact safe_ret _
    · exact safe_op (hi _ rfl) fun a hoka => safe_op (ha v x a hok hx hoka) fun _ _ => safe_ret _
  refine hfailed.bind fun (failed : Bool) => ?_
  split
  · exact safe_op (hi _ rfl) fun _ _ => safe_ret _
  · refine safe_op (hi _ rfl) fun v hok => safe_op (hv v hok) fun x hx => ?_
    refine safe_op (hi _ rfl) fun a hoka => safe_op (ha v x a hok hx hoka) fun _ _ => ?_
    exact safe_op (hi _ rfl) fun _ _ => safe_ret _

end EcrToolkit.Device
