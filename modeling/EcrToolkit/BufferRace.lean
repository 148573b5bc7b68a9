import EcrToolkit.DeviceSteps
import Mathlib.Data.Fintype.Basic

/-!
# Allocating the buffer under concurrent ioctls

`TIMING_IOCTL_KMALLOC` checks `vmem`, allocates, stores `vmem` and then stores
`vmem_aligned`, without a lock.  If no other handler reads `vmem` for its check
between the check and the first store, there is one block; if no cache or memory
handler reads `vmem_aligned` between the two stores, it finds the aligned address
of that block (`buffer_shared`).  Both conditions are needed
(`two_blocks_allocated`).

The invariant is `Sharing`: at most one client is allocating, and every other
client is in the middle of something `Harmless`.
-/
namespace EcrToolkit.Device

open AtomicProgram AtomicProgram.Prog

variable {ι κ : Type}

/-! ## Where a handler is -/

/-- About to call `kmalloc`. -/
def Client.atKmalloc : Client κ → Bool
  | .running _ (.op (.kmalloc _) _) => true
  | _ => false

/-- At the check of `TIMING_IOCTL_KMALLOC`: about to read `vmem`, and to call
`kmalloc` if it is NULL. -/
def Client.atCheck : Client κ → Bool
  | .running _ (.op .readVmem k) =>
    match k (0 : BitVec 64) with
    | .op (.kmalloc _) _ => true
    | _ => false
  | _ => false

/-- Past the check, and the result of `kmalloc` not yet stored to `vmem`. -/
def Client.storing : Client κ → Bool
  | .running _ (.op (.kmalloc _) _) => true
  | .running _ (.op (.writeVmem _) _) => true
  | _ => false

/-- Between the store to `vmem` and the store to `vmem_aligned`. -/
def Client.betweenStores : Client κ → Bool
  | .running _ (.op .readVmem k) =>
    match k (0 : BitVec 64) with
    | .op (.writeVmemAligned _) _ => true
    | _ => false
  | .running _ (.op (.writeVmemAligned _) _) => true
  | _ => false

/-- A cache or memory handler about to read `vmem_aligned`. -/
def Client.usesAligned : Client κ → Bool
  | .running cmd (.op .readVmemAligned _) => probes cmd
  | _ => false

/-- The handler has an operation to perform. -/
def Client.atOp : Client κ → Bool
  | .running _ (.op _ _) => true
  | _ => false

/-- Inside a handler, not counting `nop_timing_start`. -/
def Client.isRunning : Client κ → Bool
  | .running _ _ => true
  | _ => false

/-- The blocks at `p` and at `q` do not overlap. -/
def Apart (p q : BitVec 64) : Prop :=
  p.toNat + kmallocSize ≤ q.toNat ∨ q.toNat + kmallocSize ≤ p.toNat

instance (p q : BitVec 64) : Decidable (Apart p q) := inferInstanceAs (Decidable (_ ∨ _))

/-- A block apart from those allocated before. -/
def FreshBlock (m : Memory) (p : BitVec 64) : Prop := Block p ∧ ∀ q ∈ m.allocated, Apart p q

-- not by enumerating all 2^64 addresses
instance (m : Memory) (p : BitVec 64) : Decidable (FreshBlock m p) :=
  @instDecidableAnd _ _ inferInstance (List.decidableBAll (Apart p) m.allocated)

/-- `kmalloc` returns a fresh block each time it is called. -/
def KmallocFresh (s : State ι κ) : Action ι κ → Prop
  | .handler c env => (s.client c).atKmalloc = true → FreshBlock s.memory env.kmalloc
  | _ => True

/-- **The order that is needed**: no check of `vmem` while another handler is past
its own and has not stored `vmem`, and no use of `vmem_aligned` between the stores. -/
def Ordered (s : State ι κ) : Action ι κ → Prop
  | .handler c _ =>
    ((s.client c).atCheck = true → ∀ d, (s.client d).storing = false) ∧
      ((s.client c).usesAligned = true → ∀ d, (s.client d).betweenStores = false)
  | _ => True

instance (s : State ι κ) : ∀ a, Decidable (KmallocFresh s a)
  | .handler c env =>
    inferInstanceAs (Decidable ((s.client c).atKmalloc = true → FreshBlock s.memory env.kmalloc))
  | .openDev _ | .ioctl _ _ | .enterNop _ _ | .leaveNop _ | .closeDev _ | .nop _ _ | .unload
  | .module _ => .isTrue trivial

instance [Fintype ι] (s : State ι κ) : ∀ a, Decidable (Ordered s a)
  | .handler c _ => inferInstanceAs (Decidable
      (((s.client c).atCheck = true → ∀ d, (s.client d).storing = false) ∧
        ((s.client c).usesAligned = true → ∀ d, (s.client d).betweenStores = false)))
  | .openDev _ | .ioctl _ _ | .enterNop _ _ | .leaveNop _ | .closeDev _ | .nop _ _ | .unload
  | .module _ => .isTrue trivial

/-! ## Handlers that do not allocate -/

/-- The operation neither allocates nor stores to the globals. -/
def keepsBlocks : Op → Bool
  | .kmalloc _ | .writeVmem _ | .writeVmemAligned _ => false
  | _ => true

/-- The globals and the blocks are the same. -/
structure SameBlocks (m m' : Memory) : Prop where
  vmem : m'.vmem = m.vmem
  vmemAligned : m'.vmemAligned = m.vmemAligned
  allocated : m'.allocated = m.allocated

theorem perform_keepsBlocks {env : Env} {m m' : Memory} {o : Op} {r : o.Res}
    (ho : keepsBlocks o = true) (h : perform env m o = some (r, m')) : SameBlocks m m' := by
  cases o
  case access via a p =>
    simp only [perform] at h
    split at h <;> cases h
    exact ⟨rfl, rfl, rfl⟩
  all_goals first | (cases h; exact ⟨rfl, rfl, rfl⟩) | cases ho

theorem Settled.congr {m m' : Memory} (h : Settled m) (hm : SameBlocks m m') : Settled m' := by
  refine ⟨?_, ?_, ?_⟩
  · rw [hm.vmem]
    exact h.outcome
  · rw [hm.vmem, hm.vmemAligned]
    exact h.aligned
  · rw [hm.vmem, hm.allocated]
    exact h.allocated

theorem Allocating.congr {P : BitVec 64 → Prop} {m m' : Memory} {p : Code Return}
    (h : Allocating P m p) (hm : SameBlocks m m') : Allocating P m' p := by
  rcases h with ⟨hp, h, hv⟩ | ⟨q, hp, hq, hv, ha, hb⟩ | ⟨hp, hq, ha, hb⟩ | ⟨hp, hq, ha, hb⟩
  · exact .allocate hp (h.congr hm) (hm.vmem.trans hv)
  · exact .store q hp hq (hm.vmem.trans hv) (hm.vmemAligned.trans ha) (hm.allocated.trans hb)
  · rw [← hm.vmem] at hq hb
    exact .reload hp hq (hm.vmemAligned.trans ha) (hm.allocated.trans hb)
  · rw [← hm.vmem] at hp hq hb
    exact .publish hp hq (hm.vmemAligned.trans ha) (hm.allocated.trans hb)

/-- An allocating handler has an operation to perform. -/
theorem Allocating.exists_op {P : BitVec 64 → Prop} {m : Memory} {p : Code Return}
    (h : Allocating P m p) : ∃ o k, p = .op o k := by
  rcases h with ⟨hp, -, -⟩ | ⟨q, hp, -, -, -, -⟩ | ⟨hp, -, -, -⟩ | ⟨hp, -, -, -⟩
  all_goals exact ⟨_, _, hp⟩

/-- The program stores nothing. -/
def Quiet {α : Type} (p : Code α) : Prop := Safe (fun _ _ => True) (keepsBlocks · = true) p

/-- `vmem` reads as NULL. -/
def AnswersNull : (o : Op) → o.Res → Prop
  | .readVmem, r => r = (0 : BitVec 64)
  | _, _ => True

/-- As long as `vmem` is NULL, the program does not get to use `vmem_aligned`. -/
def GivesUp (p : Code Return) : Prop := Safe AnswersNull (· ≠ .readVmemAligned) p

theorem inert_keepsBlocks {o : Op} (h : inert o = true) : keepsBlocks o = true := by
  cases o <;> first | rfl | cases h

theorem quiet_timingUnlockedIoctl {cmd : BitVec 32} (h : cmd ≠ timingIoctlKmalloc) :
    Quiet (timingUnlockedIoctl cmd) :=
  Allows.timingUnlockedIoctl
    ⟨fun _ ho => inert_keepsBlocks ho, fun _ _ _ _ _ _ _ _ => rfl, fun _ _ _ _ _ _ _ => rfl⟩ h

theorem quiet_kmallocVerify : Quiet kmallocVerify :=
  safe_kmallocVerify (fun _ ho => inert_keepsBlocks ho) (fun _ _ => rfl) fun _ _ _ _ _ _ => rfl

theorem givesUp_timingUnlockedIoctl {cmd : BitVec 32} (h : probes cmd = true) :
    GivesUp (timingUnlockedIoctl cmd) :=
  safe_probes h (fun _ hv => hv) fun _ _ hne => hne

theorem quiet_timingInitModule : Quiet timingInitModule :=
  safe_timingInitModule (fun _ ho => inert_keepsBlocks ho) rfl

theorem quiet_timingCleanupModule : Quiet timingCleanupModule :=
  safe_op rfl fun _ _ => safe_op rfl fun _ _ => safe_op rfl fun _ _ => safe_op rfl fun _ _ =>
    safe_ret _

/-- What a client that is not allocating may be in the middle of. -/
inductive Harmless (m : Memory) (cmd : BitVec 32) (p : Code Return) : Prop
  | start (hcmd : cmd = timingIoctlKmalloc) (hp : p = timingUnlockedIoctl timingIoctlKmalloc)
  | command (hcmd : cmd = timingIoctlKmalloc) (hp : p = kmallocCommand)
  | check (hcmd : cmd = timingIoctlKmalloc) (hp : p = kmallocCheck)
  | quiet (h : Quiet p) (hnull : probes cmd = true → m.vmem = 0 → GivesUp p)

theorem Harmless.mono {m m' : Memory} {cmd : BitVec 32} {p : Code Return}
    (h : Harmless m cmd p) (hm : m'.vmem = 0 → m.vmem = 0) : Harmless m' cmd p := by
  rcases h with ⟨hcmd, hp⟩ | ⟨hcmd, hp⟩ | ⟨hcmd, hp⟩ | ⟨h, hnull⟩
  · exact .start hcmd hp
  · exact .command hcmd hp
  · exact .check hcmd hp
  · exact .quiet h fun hc hv => hnull hc (hm hv)

theorem harmless_timingUnlockedIoctl (m : Memory) (cmd : BitVec 32) :
    Harmless m cmd (timingUnlockedIoctl cmd) := by
  by_cases hcmd : cmd = timingIoctlKmalloc
  · rw [hcmd]
    exact .start rfl rfl
  · exact .quiet (quiet_timingUnlockedIoctl hcmd) fun hc _ => givesUp_timingUnlockedIoctl hc

theorem harmless_kmallocVerify (m : Memory) : Harmless m timingIoctlKmalloc kmallocVerify :=
  .quiet quiet_kmallocVerify fun hc => absurd hc (by decide)

/-- The answer is what `AnswersNull` says, if `vmem` is NULL. -/
theorem answersNull_of_perform {env : Env} {m m' : Memory} {o : Op} {r : o.Res}
    (hv : m.vmem = 0) (h : perform env m o = some (r, m')) : AnswersNull o r := by
  cases o
  case readVmem => cases h; exact hv
  all_goals trivial

/-! ## The invariant -/

/-- The module's own programs store nothing. -/
def ModuleQuiet : Module → Prop
  | .inserting p => Quiet p
  | .removing p => Quiet p
  | _ => True

/-- At most one client — `who` — is allocating, and the globals are settled when
nobody is. -/
structure Sharing (s : State ι κ) (who : Option ι) : Prop where
  settled : who = none → Settled s.memory
  allocating : ∀ c, who = some c →
    ∃ p, s.client c = .running timingIoctlKmalloc p ∧ Allocating Block s.memory p
  others : ∀ d cmd p, who ≠ some d → s.client d = .running cmd p → Harmless s.memory cmd p
  module : ModuleQuiet s.module

theorem sharing_initial : Sharing (initial : State ι κ) none :=
  ⟨fun _ => .zero, nofun, nofun, quiet_timingInitModule⟩

section Step
variable [DecidableEq ι] {s : State ι κ} {who : Option ι}

/-- A client that is not allocating goes on, without touching the buffer. -/
theorem Sharing.update (h : Sharing s who) {c : ι} (hc : who ≠ some c) {x : Client κ} {m : Memory}
    (hm : SameBlocks s.memory m) (hx : ∀ cmd p, x = .running cmd p → Harmless m cmd p)
    (n : NopTimer.State κ) :
    Sharing { s.setClient c x with memory := m, nop := n } who := by
  refine ⟨fun hw => (h.settled hw).congr hm, fun d hd => ?_, fun d cmd p hd hp => ?_, h.module⟩
  · obtain ⟨p, hp, halloc⟩ := h.allocating d hd
    have hne : d ≠ c := fun he => hc (he ▸ hd)
    exact ⟨p, (setClient_of_ne s c x hne).trans hp, halloc.congr hm⟩
  · rcases setClient_eq_or s c x d with ⟨-, he⟩ | ⟨-, he⟩
    · exact hx cmd p (he.symm.trans hp)
    · exact (h.others d cmd p hd (he.symm.trans hp)).mono fun hv => hm.vmem.symm.trans hv

theorem Sharing.idle (h : Sharing s who) {c : ι} (hc : who ≠ some c) {x : Client κ}
    (hx : x.isRunning = false) (n : NopTimer.State κ) :
    Sharing { s.setClient c x with nop := n } who := by
  refine h.update hc (m := s.memory) ⟨rfl, rfl, rfl⟩ (fun cmd p he => ?_) n
  rw [he] at hx
  cases hx

omit [DecidableEq ι] in
/-- A client that is not at an operation is not the one that allocates. -/
theorem Sharing.ne_who (h : Sharing s who) {c : ι}
    (hc : (s.client c).atOp = false) : who ≠ some c := by
  intro hw
  obtain ⟨p, hp, halloc⟩ := h.allocating c hw
  obtain ⟨o, k, rfl⟩ := halloc.exists_op
  rw [hp] at hc
  cases hc

/-- A step of the client that is allocating. -/
theorem Sharing.allocate {c : ι} (h : Sharing s (some c)) {env : Env} {cmd : BitVec 32} {o : Op}
    {k : o.Res → Code Return} {r : o.Res} {m : Memory}
    (hc : s.client c = .running cmd (.op o k)) (hr : perform env s.memory o = some (r, m))
    (henv : ∀ n, o = .kmalloc n → Block env.kmalloc) :
    ∃ who, Sharing { s.setClient c (.running cmd (k r)) with memory := m } who := by
  obtain ⟨p, hp, halloc⟩ := h.allocating c rfl
  obtain ⟨rfl, rfl⟩ := Client.running.inj (hc.symm.trans hp)
  have hstep := halloc.step (fun _ => Or.inr) henv hr
  -- `vmem` never goes back to NULL
  have hnull : m.vmem = 0 → s.memory.vmem = 0 := by
    intro hv
    rcases halloc with ⟨-, -, hv'⟩ | ⟨q, -, -, hv', -, -⟩ | ⟨hp, hq, -, -⟩ | ⟨hp, hq, -, -⟩
    · exact hv'
    · exact hv'
    · cases hp
      cases hr
      exact absurd hv hq.1
    · rw [kmallocPublish_eq] at hp
      cases hp
      cases hr
      exact absurd hv hq.1
  have hothers : ∀ d cmd' p, d ≠ c →
      (s.setClient c (.running timingIoctlKmalloc (k r))).client d = .running cmd' p →
      Harmless m cmd' p := by
    intro d cmd' p hd hp
    rw [setClient_of_ne _ _ _ hd] at hp
    exact (h.others d cmd' p (fun he => hd (Option.some.inj he).symm) hp).mono hnull
  rcases hstep.next with hnext | ⟨hsettled, hverify⟩
  · refine ⟨some c, nofun, ?_, fun d cmd' p hd => ?_, h.module⟩
    · intro d hd
      obtain rfl := Option.some.inj hd
      exact ⟨k r, setClient_self .., hnext⟩
    · exact hothers d cmd' p fun he => hd (congrArg some he.symm)
  · refine ⟨none, fun _ => hsettled, nofun, fun d cmd' p _ hp => ?_, h.module⟩
    by_cases hd : d = c
    · rw [hd] at hp
      obtain ⟨rfl, rfl⟩ := Client.running.inj ((setClient_self s c _).symm.trans hp)
      rw [hverify]
      exact harmless_kmallocVerify _
    · exact hothers d cmd' p hd hp

/-- The check of `TIMING_IOCTL_KMALLOC`, made when nobody is `storing`. -/
theorem Sharing.check (h : Sharing s who) {c : ι} (hwho : who ≠ some c)
    (hstoring : ∀ d, (s.client d).storing = false) :
    ∃ who, Sharing (s.setClient c (.running timingIoctlKmalloc
      (if s.memory.vmem = 0 then kmallocAllocate else kmallocVerify))) who := by
  by_cases hv : s.memory.vmem = 0
  · rw [if_pos hv]
    have hnone : who = none := by
      cases who with
      | none => rfl
      | some d =>
        exfalso
        obtain ⟨p, hp, halloc⟩ := h.allocating d rfl
        have hd := hstoring d
        rw [hp] at hd
        rcases halloc with ⟨rfl, -, -⟩ | ⟨q, rfl, -, -, -, -⟩ | ⟨-, hq, -, -⟩ | ⟨-, hq, -, -⟩
        · cases hd
        · cases hd
        · exact hq.1 hv
        · exact hq.1 hv
    subst hnone
    refine ⟨some c, nofun, ?_, fun d cmd p hd hp => ?_, h.module⟩
    · intro d hd
      obtain rfl := Option.some.inj hd
      exact ⟨_, setClient_self .., .allocate rfl (h.settled rfl) hv⟩
    · have hne : d ≠ c := fun he => hd (congrArg some he.symm)
      rw [setClient_of_ne _ _ _ hne] at hp
      exact h.others d cmd p nofun hp
  · rw [if_neg hv]
    refine ⟨who, h.update hwho (m := s.memory) ⟨rfl, rfl, rfl⟩ (fun cmd p he => ?_) s.nop⟩
    obtain ⟨rfl, rfl⟩ := Client.running.inj he
    exact harmless_kmallocVerify _

/-- A step of a client that is not allocating. -/
theorem Sharing.other (h : Sharing s who) {c : ι} (hwho : who ≠ some c) {env : Env}
    {cmd : BitVec 32} {o : Op} {k : o.Res → Code Return} {r : o.Res} {m : Memory}
    (hc : s.client c = .running cmd (.op o k)) (hr : perform env s.memory o = some (r, m))
    (hstoring : (s.client c).atCheck = true → ∀ d, (s.client d).storing = false) :
    ∃ who, Sharing { s.setClient c (.running cmd (k r)) with memory := m } who := by
  rcases h.others c cmd _ hwho hc with ⟨rfl, hp⟩ | ⟨rfl, hp⟩ | ⟨rfl, hp⟩ | ⟨hq, hnull⟩
  · rw [timingUnlockedIoctl_kmalloc] at hp
    cases hp
    cases hr
    refine ⟨who, h.update hwho ⟨rfl, rfl, rfl⟩ (fun cmd p he => ?_) s.nop⟩
    obtain ⟨rfl, rfl⟩ := Client.running.inj he
    exact .command rfl rfl
  · rw [kmallocCommand_eq] at hp
    cases hp
    cases hr
    refine ⟨who, h.update hwho ⟨rfl, rfl, rfl⟩ (fun cmd p he => ?_) s.nop⟩
    obtain ⟨rfl, rfl⟩ := Client.running.inj he
    exact .check rfl rfl
  · have hcheck : s.client c = .running timingIoctlKmalloc kmallocCheck := by rw [hc, hp]
    cases hp
    cases hr
    refine h.check hwho (hstoring ?_)
    rw [hcheck]
    rfl
  · obtain ⟨hkeep, hquiet⟩ := hq.step (r := r) trivial
    have hm := perform_keepsBlocks hkeep hr
    refine ⟨who, h.update hwho hm (fun cmd' p he => ?_) s.nop⟩
    obtain ⟨rfl, rfl⟩ := Client.running.inj he
    refine .quiet hquiet fun hcmd hv => ?_
    have hv' : s.memory.vmem = 0 := hm.vmem.symm.trans hv
    exact ((hnull hcmd hv').step (answersNull_of_perform hv' hr)).2

omit [DecidableEq ι] in
/-- A step of the module's own programs. -/
theorem Sharing.moduleOp (h : Sharing s who) {m : Memory} {x : Module}
    (hm : SameBlocks s.memory m) (hx : ModuleQuiet x) :
    Sharing { s with memory := m, module := x } who := by
  refine ⟨fun hw => (h.settled hw).congr hm, fun c hc => ?_, fun d cmd p hd hp => ?_, hx⟩
  · obtain ⟨p, hp, halloc⟩ := h.allocating c hc
    exact ⟨p, hp, halloc.congr hm⟩
  · exact (h.others d cmd p hd hp).mono fun hv => hm.vmem.symm.trans hv

variable [DecidableEq κ]

/-- **The invariant is kept** by every step that `KmallocFresh` and `Ordered` allow. -/
theorem sharing_step {s' : State ι κ} {a : Action ι κ} {es : List (Event ι κ)}
    (h : ∃ who, Sharing s who) (hfresh : KmallocFresh s a) (hord : Ordered s a)
    (hs : step s a = some (es, s')) : ∃ who, Sharing s' who := by
  obtain ⟨who, h⟩ := h
  cases step_cases hs with
  | openDev c hc hr => exact ⟨who, h.idle (h.ne_who (by rw [hc]; rfl)) rfl s.nop⟩
  | ioctl c cmd hc =>
    refine ⟨who, h.update (h.ne_who (by rw [hc]; rfl)) (m := s.memory) ⟨rfl, rfl, rfl⟩ ?_ s.nop⟩
    intro cmd' p he
    obtain ⟨rfl, rfl⟩ := Client.running.inj he
    exact harmless_timingUnlockedIoctl s.memory cmd
  | op c env cmd o k r m hc hr =>
    by_cases hw : who = some c
    · subst hw
      refine h.allocate hc hr fun n ho => ?_
      subst ho
      have hat : (s.client c).atKmalloc = true := by rw [hc]; rfl
      exact (hfresh hat).1
    · exact h.other hw hc hr hord.1
  | fault c env cmd o k hc hr =>
    have hw : who ≠ some c := by
      rintro rfl
      obtain ⟨p, hp, halloc⟩ := h.allocating c rfl
      obtain ⟨rfl, rfl⟩ := Client.running.inj (hc.symm.trans hp)
      exact halloc.no_fault hr
    exact ⟨who, h.idle hw rfl s.nop⟩
  | ret c env cmd r hc => exact ⟨who, h.idle (h.ne_who (by rw [hc]; rfl)) rfl s.nop⟩
  | enterNop c j cmd action es n hc hn =>
    exact ⟨who, h.idle (h.ne_who (by rw [hc]; rfl)) rfl n⟩
  | leaveNop c cmd j hc hj => exact ⟨who, h.idle (h.ne_who (by rw [hc]; rfl)) rfl s.nop⟩
  | leaveFault c cmd j hc hj => exact ⟨who, h.idle (h.ne_who (by rw [hc]; rfl)) rfl s.nop⟩
  | closeDev c hc => exact ⟨who, h.idle (h.ne_who (by rw [hc]; rfl)) rfl s.nop⟩
  | nop a mapped es s' hn =>
    obtain ⟨hm, hc, hmod⟩ := nopStep_frame hn
    refine ⟨who, fun hw => hm ▸ h.settled hw, fun c hw => ?_, fun d cmd p hd hp => ?_, ?_⟩
    · rw [hm, hc]
      exact h.allocating c hw
    · rw [hc] at hp
      rw [hm]
      exact h.others d cmd p hd hp
    · rw [hmod]
      exact h.module
  | unload hm => exact ⟨who, h.moduleOp ⟨rfl, rfl, rfl⟩ quiet_timingCleanupModule⟩
  | insert env o k r m hm hr =>
    have hq : Quiet (.op o k) := by
      have hmod := h.module
      rw [hm] at hmod
      exact hmod
    obtain ⟨hkeep, hquiet⟩ := hq.step (r := r) trivial
    exact ⟨who, h.moduleOp (perform_keepsBlocks hkeep hr) hquiet⟩
  | inserted env r hm =>
    refine ⟨who, h.moduleOp ⟨rfl, rfl, rfl⟩ ?_⟩
    split <;> trivial
  | remove env o k r m hm hr =>
    have hq : Quiet (.op o k) := by
      have hmod := h.module
      rw [hm] at hmod
      exact hmod
    obtain ⟨hkeep, hquiet⟩ := hq.step (r := r) trivial
    exact ⟨who, h.moduleOp (perform_keepsBlocks hkeep hr) hquiet⟩
  | removed env hm => exact ⟨who, h.moduleOp ⟨rfl, rfl, rfl⟩ trivial⟩

/-! ## The result -/

/-- `vmem_aligned` is the 16-byte-aligned address inside the block `vmem` points to. -/
def AlignedInBlock (m : Memory) : Prop :=
  m.vmem ∈ m.allocated ∧ m.vmem.toNat ≤ m.vmemAligned.toNat ∧
    m.vmemAligned.toNat < m.vmem.toNat + 16 ∧ m.vmemAligned.toNat % 16 = 0

instance (m : Memory) : Decidable (AlignedInBlock m) := inferInstanceAs (Decidable (_ ∧ _))

theorem Settled.alignedInBlock {m : Memory} (h : Settled m) (hv : m.vmem ≠ 0) :
    AlignedInBlock m := by
  have hmem : m.vmem ∈ m.allocated := by
    rw [h.allocated, blocksOf, if_neg hv]
    exact List.mem_singleton_self _
  refine ⟨hmem, ?_⟩
  rw [h.aligned]
  exact (h.block hv).aligned

omit [DecidableEq ι] [DecidableEq κ] in
theorem Sharing.allocated_le (h : Sharing s who) : s.memory.allocated.length ≤ 1 := by
  cases who with
  | none =>
    rw [(h.settled rfl).allocated]
    exact length_blocksOf_le _
  | some c =>
    obtain ⟨p, -, halloc⟩ := h.allocating c rfl
    exact halloc.allocated_le

omit [DecidableEq ι] [DecidableEq κ] in
/-- Once every result of `kmalloc` is stored, `vmem` holds the only block. -/
theorem Sharing.allocated_eq (h : Sharing s who) (hst : ∀ c, (s.client c).storing = false) :
    s.memory.allocated = blocksOf s.memory.vmem := by
  cases who with
  | none => exact (h.settled rfl).allocated
  | some c =>
    obtain ⟨p, hp, halloc⟩ := h.allocating c rfl
    have hc := hst c
    rw [hp] at hc
    rcases halloc with ⟨rfl, -, -⟩ | ⟨q, rfl, -, -, -, -⟩ | ⟨-, -, -, hb⟩ | ⟨-, -, -, hb⟩
    · cases hc
    · cases hc
    · exact hb
    · exact hb

omit [DecidableEq ι] [DecidableEq κ] in
/-- A cache or memory handler that gets to use `vmem_aligned` found the globals settled. -/
theorem Sharing.uses (h : Sharing s who) {c : ι} (hc : (s.client c).usesAligned = true)
    (hbetween : ∀ d, (s.client d).betweenStores = false) : AlignedInBlock s.memory := by
  obtain ⟨cmd, k, hcl, hcmd⟩ : ∃ cmd k, s.client c = .running cmd (.op .readVmemAligned k) ∧
      probes cmd = true := by
    unfold Client.usesAligned at hc
    split at hc
    case h_1 cmd k hcl => exact ⟨cmd, k, hcl, hc⟩
    case h_2 => cases hc
  have hwho : who ≠ some c := by
    rintro rfl
    obtain ⟨p, hp, -⟩ := h.allocating c rfl
    obtain ⟨rfl, -⟩ := Client.running.inj (hcl.symm.trans hp)
    cases hcmd
  have hv : s.memory.vmem ≠ 0 := by
    intro hv
    rcases h.others c cmd _ hwho hcl with ⟨rfl, -⟩ | ⟨rfl, -⟩ | ⟨rfl, -⟩ | ⟨-, hnull⟩
    · cases hcmd
    · cases hcmd
    · cases hcmd
    · exact (hnull hcmd hv).1 rfl
  cases who with
  | none => exact (h.settled rfl).alignedInBlock hv
  | some d =>
    exfalso
    obtain ⟨p, hp, halloc⟩ := h.allocating d rfl
    have hd := hbetween d
    rw [hp] at hd
    rcases halloc with ⟨-, -, hv'⟩ | ⟨q, -, -, hv', -, -⟩ | ⟨rfl, -, -, -⟩ | ⟨rfl, -, -, -⟩
    · exact hv hv'
    · exact hv hv'
    · cases hd
    · cases hd

/-- What the concurrent handlers rely on: one block at most, which `vmem` holds once
it is stored, and which every cache or memory handler about to use `vmem_aligned`
finds behind it. -/
def BufferShared (s : State ι κ) : Prop :=
  s.memory.allocated.length ≤ 1 ∧
    ((∀ c, (s.client c).storing = false) → s.memory.allocated = blocksOf s.memory.vmem) ∧
    ∀ c, (s.client c).usesAligned = true → AlignedInBlock s.memory

/-- **Allocation under concurrent ioctls.**  In every run whose steps respect
`Ordered` there is at most one block, `vmem` holds it, and every use of
`vmem_aligned` by a cache or memory handler finds the aligned address in it. -/
theorem buffer_shared {evs : List (Event ι κ)} {s : State ι κ}
    (h : system.Run (fun s a => KmallocFresh s a ∧ Ordered s a) initial evs s) :
    s.memory.allocated.length ≤ 1 ∧
      ((∀ c, (s.client c).storing = false) → s.memory.allocated = blocksOf s.memory.vmem) ∧
      ∀ c env, Ordered s (.handler c env) → (s.client c).usesAligned = true →
        AlignedInBlock s.memory := by
  obtain ⟨who, hsh⟩ := h.stateInvariant (I := fun s => ∃ who, Sharing s who)
    ⟨none, sharing_initial⟩ fun s a es s' hI hg hs => sharing_step hI hg.1 hg.2 hs
  refine ⟨hsh.allocated_le, hsh.allocated_eq, fun c env hord hc => ?_⟩
  exact hsh.uses hc (hord.2 hc)

end Step

/-! ## Schedules -/

/-- The environment answers well, and `kmalloc` returns `p`. -/
def answering (p : BitVec 64) : Env :=
  ⟨p, true, 1, 200, ⟨0, 0⟩, fun _ => true, true, true, 0⟩

/-- `insmod`, to its end. -/
def insmod : List (Action ι κ) := List.replicate 3 (.module (answering 0))

/-- Client `c` takes `n` steps of its handler, with `kmalloc` returning `p`. -/
def steps (c : ι) (n : Nat) (p : BitVec 64) : List (Action ι κ) :=
  List.replicate n (.handler c (answering p))

/-- Client 0 allocates, and client 1 then reads the cache timing up to its first use
of `vmem_aligned`. -/
def allocateThenUse : List (Action (Fin 2) (Fin 1)) :=
  insmod ++ [.openDev 0, .openDev 1, .ioctl 0 timingIoctlKmalloc] ++ steps 0 7 0x1008 ++
    [.ioctl 1 timingIoctlCache] ++ steps 1 3 0

theorem buffer_shared_two_clients : ∃ evs s,
    system.Run (fun s a => KmallocFresh s a ∧ Ordered s a)
      (initial : State (Fin 2) (Fin 1)) evs s ∧
    (s.client 1).usesAligned = true ∧ s.memory.allocated.length ≤ 1 ∧
      AlignedInBlock s.memory := by
  obtain ⟨evs, s, hrun, huse, hbetween⟩ := Transitions.System.Run.exists_of_exec system
    (fun s a => KmallocFresh s a ∧ Ordered s a) (initial : State (Fin 2) (Fin 1)) allocateThenUse
    (fun _ s => (s.client 1).usesAligned = true ∧ ∀ d, (s.client d).betweenStores = false)
    (by decide +kernel)
  obtain ⟨hle, -, huses⟩ := buffer_shared hrun
  have hat : (s.client 1).atCheck = false := by
    unfold Client.usesAligned at huse
    split at huse
    case h_1 hc => rw [hc]; rfl
    case h_2 => cases huse
  have hord : Ordered s (.handler 1 (answering 0)) :=
    ⟨fun h => absurd (hat.symm.trans h) nofun, fun _ => hbetween⟩
  exact ⟨evs, s, hrun, huse, hle, huses 1 (answering 0) hord huse⟩

/-- Both clients find `vmem` NULL before either stores. -/
def bothAllocate : List (Action (Fin 2) (Fin 1)) :=
  insmod ++ [.openDev 0, .openDev 1, .ioctl 0 timingIoctlKmalloc, .ioctl 1 timingIoctlKmalloc] ++
    steps 0 3 0 ++ steps 1 3 0 ++ steps 0 1 0x1000 ++ steps 1 1 0x2000

/-- Client 1 passes its check of `vmem` between the two stores of client 0. -/
def useBetweenStores : List (Action (Fin 2) (Fin 1)) :=
  insmod ++ [.openDev 0, .openDev 1, .ioctl 0 timingIoctlKmalloc, .ioctl 1 timingIoctlCache] ++
    steps 0 5 0x1000 ++ steps 1 3 0

/-- **Without the order both parts fail**: two handlers allocate a block each, and a
cache handler that found `vmem` set goes on to use a `vmem_aligned` that is NULL. -/
theorem two_blocks_allocated :
    (∃ evs s, system.Run KmallocFresh (initial : State (Fin 2) (Fin 1)) evs s ∧
      s.memory.allocated = [0x2000, 0x1000] ∧ ¬ BufferShared s) ∧
    ∃ evs s, system.Run KmallocFresh (initial : State (Fin 2) (Fin 1)) evs s ∧
      (s.client 1).usesAligned = true ∧ s.memory.vmem = 0x1000 ∧ s.memory.vmemAligned = 0 ∧
        ¬ BufferShared s := by
  constructor
  · obtain ⟨evs, s, hrun, hs⟩ := Transitions.System.Run.exists_of_exec system KmallocFresh
      (initial : State (Fin 2) (Fin 1)) bothAllocate
      (fun _ s => s.memory.allocated = [0x2000, 0x1000]) (by decide +kernel)
    refine ⟨evs, s, hrun, hs, fun hshared => ?_⟩
    have hle := hshared.1
    rw [hs] at hle
    exact absurd hle (by decide)
  · obtain ⟨evs, s, hrun, huse, hv, ha, hnot⟩ := Transitions.System.Run.exists_of_exec system
      KmallocFresh (initial : State (Fin 2) (Fin 1)) useBetweenStores
      (fun _ s => (s.client 1).usesAligned = true ∧ s.memory.vmem = 0x1000 ∧
        s.memory.vmemAligned = 0 ∧ ¬ AlignedInBlock s.memory) (by decide +kernel)
    exact ⟨evs, s, hrun, huse, hv, ha, fun hshared => hnot (hshared.2.2 1 huse)⟩

end EcrToolkit.Device
