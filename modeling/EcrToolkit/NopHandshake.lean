import EcrToolkit.HandshakeMeter
import EcrToolkit.NopLifetime

/-!
# The handshake measures

In every run of serialised calls the steps of the two threads are a handshake log:
each loop's label is followed by one number, the number of `nop`s counted from the
acknowledged reset to the read of `count`, modulo the `2 ^ 64` of an
`unsigned long`.  `Flags` is the invariant of the two request flags, `view` reads
the meter's phase off the state, and `metered_run` is the simulation.
-/
namespace EcrToolkit.NopTimer

open Transitions

variable {ι : Type}

/-! ## The invariant of the flags -/

/-- The NOP thread is answering a reset. -/
def NopPc.servesReset : NopPc → Bool
  | .clearCount | .ackReset => true
  | _ => false

/-- The NOP thread is answering a print request. -/
def NopPc.servesPrint : NopPc → Bool
  | .loadPrint | .prInfo _ | .ackPrint => true
  | _ => false

/-- Once a call has cleared them, a flag is set only while the INSTR thread waits
for its answer, and served only while it is set. -/
structure Flags (g : Globals ι) (c : Call ι) (n : NopPc) (t : InstrPc) : Prop where
  reset : 2 ≤ c.pc.stage → g.resetCount = true → t.awaitsReset = true
  print : 3 ≤ c.pc.stage → g.printCount = true → t.awaitsPrint = true
  servesReset : n.servesReset = true → g.resetCount = true
  servesPrint : n.servesPrint = true → g.printCount = true
  cleared : n = .ackReset → g.count = 0
  stored : ∀ v, n = .storeCount v → v = g.count

/-- A NOP thread that is not answering anything and stores no count. -/
def NopPc.plain (n : NopPc) : Prop :=
  n.servesReset = false ∧ n.servesPrint = false ∧ ∀ v, n ≠ .storeCount v

theorem Flags.of_plain {g g' : Globals ι} {c : Call ι} {n n' : NopPc} {t : InstrPc}
    (hf : Flags g c n t) (hn : n'.plain)
    (hr : g'.resetCount = true → g.resetCount = true)
    (hp : g'.printCount = true → g.printCount = true) : Flags g' c n' t where
  reset hle h := hf.reset hle (hr h)
  print hle h := hf.print hle (hp h)
  servesReset h := by rw [hn.1] at h; cases h
  servesPrint h := by rw [hn.2.1] at h; cases h
  cleared h := by rw [h] at hn; cases hn.1
  stored v h := absurd h (hn.2.2 v)

theorem flags_nop {i : ι} {g g' : Globals ι} {pending : Option Bool} {c : Call ι}
    {n n' : NopThread} {t : InstrPc} {es : List (Event ι)}
    (h : nopF i g pending n = some (es, g', n')) (hf : Flags g c n.pc t) :
    Flags g' c n'.pc t := by
  unfold nopF at h
  split at h
  case isFalse => cases h
  case isTrue hawake =>
    cases hpc : n.pc <;> simp only [hpc] at h
    case notCreated | exited | faulted => cases h
    case testSignal =>
      rcases pending with _ | _ | _ <;> cases h <;>
        exact hf.of_plain ⟨rfl, rfl, by simp⟩ (fun hr => hr) (fun hp => hp)
    case created | testStop =>
      cases h
      refine hf.of_plain ?_ (fun hr => hr) (fun hp => hp)
      by_cases hstop : n.shouldStop = true
      · simp only [hstop, if_true]; exact ⟨rfl, rfl, by simp⟩
      · simp only [hstop]; exact ⟨rfl, rfl, by simp⟩
    case testReset =>
      cases h
      by_cases hr : g.resetCount = true
      · simp only [hr, if_true]
        exact ⟨hf.reset, hf.print, fun _ => hr, nofun, nofun, nofun⟩
      · simp only [hr]
        exact hf.of_plain ⟨rfl, rfl, by simp⟩ (fun hr => hr) (fun hp => hp)
    case testPrint =>
      cases h
      by_cases hp : g.printCount = true
      · simp only [hp, if_true]
        exact ⟨hf.reset, hf.print, nofun, fun _ => hp, nofun, nofun⟩
      · simp only [hp]
        exact hf.of_plain ⟨rfl, rfl, by simp⟩ (fun hr => hr) (fun hp => hp)
    case clearCount =>
      cases h
      exact ⟨hf.reset, hf.print, fun _ => hf.servesReset (by rw [hpc]; rfl), nofun, fun _ => rfl,
        nofun⟩
    case loadPrint =>
      cases h
      exact ⟨hf.reset, hf.print, nofun, fun _ => hf.servesPrint (by rw [hpc]; rfl), nofun, nofun⟩
    case prInfo v =>
      cases h
      exact ⟨hf.reset, hf.print, nofun, fun _ => hf.servesPrint (by rw [hpc]; rfl), nofun, nofun⟩
    case loadCount =>
      cases h
      refine ⟨hf.reset, hf.print, nofun, nofun, nofun, ?_⟩
      rintro v ⟨⟩
      rfl
    case ackReset =>
      cases h
      exact hf.of_plain ⟨rfl, rfl, by simp⟩ nofun (fun hp => hp)
    case ackPrint =>
      cases h
      exact hf.of_plain ⟨rfl, rfl, by simp⟩ (fun hr => hr) nofun
    all_goals
      cases h
      exact hf.of_plain ⟨rfl, rfl, by simp⟩ (fun hr => hr) (fun hp => hp)

/-- With nothing to wait for, both flags are clear. -/
theorem Flags.clear {g : Globals ι} {c : Call ι} {n : NopPc} {t : InstrPc} (hf : Flags g c n t)
    (hle : 3 ≤ c.pc.stage) (ht : t.awaitsReset = false ∧ t.awaitsPrint = false) :
    g.resetCount = false ∧ g.printCount = false := by
  refine ⟨Bool.eq_false_iff.mpr fun hr => ?_, Bool.eq_false_iff.mpr fun hp => ?_⟩
  · have hw := hf.reset (by omega) hr
    rw [ht.1] at hw
    cases hw
  · have hw := hf.print hle hp
    rw [ht.2] at hw
    cases hw

/-- The INSTR thread moves and leaves the flags alone. -/
theorem Flags.move {g g' : Globals ι} {c : Call ι} {n : NopPc} {t t' : InstrPc}
    (hf : Flags g c n t) (hg : g'.resetCount = g.resetCount ∧ g'.printCount = g.printCount)
    (hc : g'.count = g.count) (hr : g.resetCount = true → t'.awaitsReset = true)
    (hp : g.printCount = true → t'.awaitsPrint = true) : Flags g' c n t' where
  reset _ h := hr (hg.1 ▸ h)
  print _ h := hp (hg.2 ▸ h)
  servesReset h := hg.1.trans (hf.servesReset h)
  servesPrint h := hg.2.trans (hf.servesPrint h)
  cleared h := hc.trans (hf.cleared h)
  stored v h := (hf.stored v h).trans hc.symm

/-! ## The meter's view of the state -/

/-- What the meter sees while a print request is set. -/
def viewPrinting (i : ι) (name : String) (k : Nat) : NopPc → Phase ι
  | .prInfo v => .read i name v.toNat
  | .ackPrint => .recorded i name
  | _ => .counting i name .printing k

/-- **The phase of the meter**, read off the flags and the places of the two
threads; `k` is the number of `nop`s counted. -/
def view (g : Globals ι) (n : NopPc) (i : ι) (k : Nat) : InstrPc → Phase ι
  | .atLoop l .spinReset _ | .atLoop l .spinResetStop _ =>
    if g.resetCount then .requested i l.printName else .counting i l.printName .armed k
  | .atLoop l (.forCall _) _ => .counting i l.printName .inCall k
  | .atLoop l .label _ => .counting i l.printName .called k
  | .atLoop l .setPrint _ => .counting i l.printName .labelled k
  | .atLoop l .spinPrint _ | .atLoop l .spinPrintStop _ =>
    if g.printCount then viewPrinting i l.printName k n else .answered i l.printName
  | _ => .idle

/-- An `unsigned long` holds a number modulo `2 ^ 64`. -/
def wrap (n : Nat) : Nat := n % 2 ^ 64

theorem view_nextLoop (g : Globals ι) (n : NopPc) (i : ι) (k : Nat) (ls : List TimingLoop) :
    view g n i k (nextLoop ls) = .idle := by
  cases ls with
  | nil => rfl
  | cons l ls =>
    rw [nextLoop, entry]
    cases l.guard <;> rfl

theorem view_afterBody (g : Globals ι) (n : NopPc) (i : ι) (k : Nat) (l : TimingLoop)
    (ls : List TimingLoop) : view g n i k (afterBody l ls) = .idle := by
  unfold afterBody
  split
  · rfl
  · exact view_nextLoop g n i k ls

section Simulation
variable [DecidableEq ι] {i : ι} {g g' : Globals ι} {c : Call ι} {es : List (Event ι)}

/-- Inside a timing macro, the meter can follow the INSTR thread. -/
theorem nopTimingLoop_metered (env : Env) {n : NopPc} {t : InstrThread} {l : TimingLoop}
    {p : LoopPc} {rest : List TimingLoop} (hpc : t.pc = .atLoop l p rest) (hle : 3 ≤ c.pc.stage)
    (hstop : t.shouldStop = false) (hf : Flags g c n t.pc) (k : Nat) :
    let r := nopTimingLoop i g env t l p rest
    Flags r.2.1 c n r.2.2.pc ∧
      (meter wrap).readFrom (view g n i k t.pc) (threadEvents r.1) =
        some (view r.2.1 n i k r.2.2.pc) := by
  have hn := nextLoop_waits_not rest
  have ha := afterBody_waits_not l rest
  rw [hpc] at hf ⊢
  unfold nopTimingLoop
  -- outside the waits both flags are clear, so any move keeps the invariant
  have quiet : (InstrPc.atLoop l p rest).awaitsReset = false ∧
      (InstrPc.atLoop l p rest).awaitsPrint = false → ∀ t', Flags g c n t' := by
    intro hw t'
    obtain ⟨hr, hp⟩ := hf.clear hle hw
    exact hf.move ⟨rfl, rfl⟩ rfl (by simp [hr]) (by simp [hp])
  cases p
  case irqSave | irqDisable | irqRestore => exact ⟨quiet ⟨rfl, rfl⟩ _, rfl⟩
  case bootCpuHas f =>
    refine ⟨quiet ⟨rfl, rfl⟩ _, ?_⟩
    cases hb : env.bootCpuHas f
    · simp only [hb, Bool.false_eq_true, if_false, view_nextLoop]; rfl
    · simp only [hb, if_true]; rfl
  case testVmemAligned =>
    refine ⟨quiet ⟨rfl, rfl⟩ _, ?_⟩
    by_cases hv : env.vmemAligned ≠ 0
    · simp only [if_pos hv]; rfl
    · simp only [if_neg hv]; rfl
  case testOnline =>
    refine ⟨quiet ⟨rfl, rfl⟩ _, ?_⟩
    by_cases hv : 2 ≤ env.numOnlineCpus
    · simp only [if_pos hv]; rfl
    · simp only [if_neg hv]; rfl
  case zero => exact ⟨quiet ⟨rfl, rfl⟩ _, by simp only [view_afterBody]; rfl⟩
  case irqEnable => exact ⟨quiet ⟨rfl, rfl⟩ _, by simp only [view_nextLoop]; rfl⟩
  case setReset =>
    obtain ⟨hr, hp⟩ := hf.clear hle ⟨rfl, rfl⟩
    refine ⟨⟨fun _ _ => rfl, ?_, fun _ => rfl, hf.servesPrint, hf.cleared, hf.stored⟩, rfl⟩
    intro _ hp'
    rw [hp] at hp'
    cases hp'
  case spinReset =>
    have hp : g.printCount = false := Bool.eq_false_iff.mpr fun hp => nomatch hf.print hle hp
    cases hr : g.resetCount
    · simp only [Bool.false_eq_true, if_false]
      refine ⟨hf.move ⟨rfl, rfl⟩ rfl (by simp [hr]) (by simp [hp]), ?_⟩
      simp only [view, hr, Bool.false_eq_true, if_false]
      exact read_one rfl (if_pos rfl)
    · simp only [if_true]
      exact ⟨hf.move ⟨rfl, rfl⟩ rfl (fun _ => rfl) (by simp [hp]), rfl⟩
  case spinResetStop =>
    have hp : g.printCount = false := Bool.eq_false_iff.mpr fun hp => nomatch hf.print hle hp
    simp only [hstop, Bool.false_eq_true, if_false]
    exact ⟨hf.move ⟨rfl, rfl⟩ rfl (fun _ => rfl) (by simp [hp]), rfl⟩
  case forCall left =>
    cases left with
    | zero =>
      exact ⟨quiet ⟨rfl, rfl⟩ _, read_one rfl (if_pos rfl)⟩
    | succ left => exact ⟨quiet ⟨rfl, rfl⟩ _, rfl⟩
  case label =>
    exact ⟨quiet ⟨rfl, rfl⟩ _, read_one rfl (if_pos rfl)⟩
  case setPrint =>
    obtain ⟨hr, hp⟩ := hf.clear hle ⟨rfl, rfl⟩
    refine ⟨⟨?_, fun _ _ => rfl, hf.servesReset, fun _ => rfl, hf.cleared, hf.stored⟩, ?_⟩
    · intro _ hr'
      rw [hr] at hr'
      cases hr'
    · have hs : viewPrinting i l.printName k n = .counting i l.printName .printing k := by
        cases n <;> first | rfl | exact absurd (hf.servesPrint rfl) (by simp [hp])
      simp only [view, hs, if_true]
      exact read_one rfl (if_pos rfl)
  case spinPrint =>
    have hr : g.resetCount = false :=
      Bool.eq_false_iff.mpr fun hr => nomatch hf.reset (by omega) hr
    cases hp : g.printCount
    · simp only [Bool.false_eq_true, if_false]
      refine ⟨hf.move ⟨rfl, rfl⟩ rfl (by simp [hr]) (by simp [hp]), ?_⟩
      rw [view_afterBody]
      simp only [view, hp, Bool.false_eq_true, if_false]
      exact read_one rfl (if_pos rfl)
    · simp only [if_true]
      exact ⟨hf.move ⟨rfl, rfl⟩ rfl (by simp [hr]) (fun _ => rfl), rfl⟩
  case spinPrintStop =>
    have hr : g.resetCount = false :=
      Bool.eq_false_iff.mpr fun hr => nomatch hf.reset (by omega) hr
    simp only [hstop, Bool.false_eq_true, if_false]
    exact ⟨hf.move ⟨rfl, rfl⟩ rfl (by simp [hr]) (fun _ => rfl), rfl⟩

/-- The meter can follow the INSTR thread. -/
theorem instrF_metered {env : Env} {n : NopPc} {t t' : InstrThread}
    (h : instrF i g env t = some (es, g', t')) (hle : 3 ≤ c.pc.stage)
    (hstop : t.shouldStop = true → t.Done) (hf : Flags g c n t.pc) (k : Nat) :
    Flags g' c n t'.pc ∧
      (meter wrap).readFrom (view g n i k t.pc) (threadEvents es) = some (view g' n i k t'.pc) := by
  -- a move from one place outside the waits to another
  have quiet : t.pc.awaitsReset = false ∧ t.pc.awaitsPrint = false → ∀ b t₁,
      Flags { g with finish := b } c n t₁ := by
    intro hw b t₁
    obtain ⟨hr, hp⟩ := hf.clear hle hw
    exact hf.move ⟨rfl, rfl⟩ rfl (by simp [hr]) (by simp [hp])
  unfold instrF at h
  split at h
  case isFalse => cases h
  case isTrue =>
    cases hpc : t.pc <;> simp only [hpc] at h quiet
    case notCreated | exited => cases h
    case atLoop l p rest =>
      have hs : t.shouldStop = false := by
        refine Bool.eq_false_iff.mpr fun hs => ?_
        rcases hstop hs with hd | hd <;> rw [hpc] at hd <;> cases hd
      have hm := nopTimingLoop_metered (i := i) env hpc hle hs hf k
      rw [Option.some.inj h, hpc] at hm
      exact hm
    case created =>
      cases h
      refine ⟨quiet ⟨rfl, rfl⟩ g.finish _, ?_⟩
      by_cases hs : t.shouldStop = true
      · simp only [hs, if_true]; rfl
      · simp only [hs]; rfl
    case aggregating =>
      cases h
      refine ⟨quiet ⟨rfl, rfl⟩ g.finish _, ?_⟩
      rw [view_nextLoop]
      rfl
    case setFinish => cases h; exact ⟨quiet ⟨rfl, rfl⟩ true _, rfl⟩
    all_goals
      cases h
      exact ⟨quiet ⟨rfl, rfl⟩ g.finish _, rfl⟩

/-- The `nop`s executed that `count` does not hold yet. -/
def NopPc.pending : NopPc → Nat
  | .loadCount | .storeCount _ => 1
  | _ => 0

/-- `count` and the `nop` still to be added to it are the `k` `nop`s counted. -/
def Counted (g : Globals ι) (n : NopPc) (k : Nat) : Prop :=
  BitVec.ofNat 64 k = g.count + BitVec.ofNat 64 n.pending

omit [DecidableEq ι] in
theorem view_of_awaitsReset {t : InstrPc} (h : t.awaitsReset = true) (i : ι) :
    ∃ name, ∀ (g : Globals ι) n k, view g n i k t =
      if g.resetCount then .requested i name else .counting i name .armed k := by
  cases t with
  | atLoop l p rest => cases p <;> first | exact ⟨l.printName, fun _ _ _ => rfl⟩ | cases h
  | _ => cases h

omit [DecidableEq ι] in
theorem view_of_awaitsPrint {t : InstrPc} (h : t.awaitsPrint = true) (i : ι) :
    ∃ name, ∀ (g : Globals ι) n k, view g n i k t =
      if g.printCount then viewPrinting i name k n else .answered i name := by
  cases t with
  | atLoop l p rest => cases p <;> first | exact ⟨l.printName, fun _ _ _ => rfl⟩ | cases h
  | _ => cases h

omit [DecidableEq ι] in
/-- The view depends on the NOP thread only while it serves a print request. -/
theorem view_congr {n n' : NopPc} {k : Nat} (t : InstrPc)
    (h : ∀ name, viewPrinting i name k n = viewPrinting i name k n') :
    view g n i k t = view g n' i k t := by
  cases t with
  | atLoop l p rest => cases p <;> first | rfl | simp only [view, h]
  | _ => rfl

/-- A `nop` is counted in the stretches that count it. -/
theorem view_nop (t : InstrPc) (k : Nat) :
    (view g .nop i k t).onNop i = some (view g .loadCount i (k + 1) t) := by
  cases t with
  | atLoop l p rest =>
    cases p
    case spinReset | spinResetStop =>
      by_cases hr : g.resetCount = true <;> simp only [view, hr] <;> exact if_pos rfl
    case spinPrint | spinPrintStop =>
      by_cases hp : g.printCount = true <;> simp only [view, hp] <;> exact if_pos rfl
    all_goals first | rfl | exact if_pos rfl
  | _ => rfl

/-- **The meter can follow the NOP thread**, and counts with it. -/
theorem nopF_metered {pending : Option Bool} {n n' : NopThread} {t : InstrPc} {k : Nat}
    (h : nopF i g pending n = some (es, g', n')) (hle : 3 ≤ c.pc.stage)
    (hf : Flags g c n.pc t) (hk : Counted g n.pc k) :
    ∃ k', (meter wrap).readFrom (view g n.pc i k t) (threadEvents es) =
      some (view g' n'.pc i k' t) ∧ Counted g' n'.pc k' := by
  unfold nopF at h
  split at h
  case isFalse => cases h
  case isTrue =>
    cases hpc : n.pc <;> simp only [hpc] at h hf hk ⊢
    case notCreated | exited | faulted => cases h
    case testSignal =>
      rcases pending with _ | _ | _ <;> cases h <;>
        exact ⟨k, congrArg some (view_congr t fun _ => rfl), hk⟩
    case created | testStop =>
      cases h
      refine ⟨k, congrArg some (view_congr t fun _ => ?_), ?_⟩ <;>
        by_cases hs : n.shouldStop = true <;> simp only [hs] <;> first | rfl | exact hk
    case testReset =>
      cases h
      refine ⟨k, congrArg some (view_congr t fun _ => ?_), ?_⟩ <;>
        by_cases hs : g.resetCount = true <;> simp only [hs] <;> first | rfl | exact hk
    case testPrint =>
      cases h
      refine ⟨k, congrArg some (view_congr t fun _ => ?_), ?_⟩ <;>
        by_cases hs : g.printCount = true <;> simp only [hs] <;> first | rfl | exact hk
    case clearCount =>
      cases h
      obtain ⟨name, hv⟩ := view_of_awaitsReset (hf.reset (by omega) (hf.servesReset rfl)) i
      refine ⟨0, ?_, rfl⟩
      rw [hv, hv, if_pos (hf.servesReset rfl), if_pos (hf.servesReset rfl)]
      rfl
    case ackReset =>
      cases h
      obtain ⟨name, hv⟩ := view_of_awaitsReset (hf.reset (by omega) (hf.servesReset rfl)) i
      refine ⟨0, ?_, ?_⟩
      · rw [hv, hv, if_pos (hf.servesReset rfl)]
        exact read_one rfl (if_pos rfl)
      · simp [Counted, NopPc.pending, hf.cleared rfl]
    case loadPrint =>
      cases h
      obtain ⟨name, hv⟩ := view_of_awaitsPrint (hf.print hle (hf.servesPrint rfl)) i
      refine ⟨k, ?_, hk⟩
      have hcount : g.count.toNat = wrap k := by
        have hk' : BitVec.ofNat 64 k = g.count := by simpa [Counted, NopPc.pending] using hk
        rw [← hk', BitVec.toNat_ofNat, wrap]
      rw [hv, hv, if_pos (hf.servesPrint rfl), if_pos (hf.servesPrint rfl)]
      show (meter wrap).readFrom (.counting i name .printing k) _ =
        some (.read i name g.count.toNat)
      rw [hcount]
      exact read_one rfl (if_pos rfl)
    case prInfo v =>
      cases h
      obtain ⟨name, hv⟩ := view_of_awaitsPrint (hf.print hle (hf.servesPrint rfl)) i
      refine ⟨k, ?_, hk⟩
      rw [hv, hv, if_pos (hf.servesPrint rfl), if_pos (hf.servesPrint rfl)]
      show (meter wrap).readFrom (.read i name v.toNat) _ = some (.recorded i name)
      exact read_one rfl (if_pos rfl)
    case ackPrint =>
      cases h
      obtain ⟨name, hv⟩ := view_of_awaitsPrint (hf.print hle (hf.servesPrint rfl)) i
      refine ⟨k, ?_, hk⟩
      rw [hv, hv, if_pos (hf.servesPrint rfl)]
      exact read_one rfl (if_pos rfl)
    case nop =>
      cases h
      refine ⟨k + 1, read_one rfl (view_nop t k), ?_⟩
      have hk' : BitVec.ofNat 64 k = g.count := by simpa [Counted, NopPc.pending] using hk
      rw [Counted, BitVec.ofNat_add, hk']
      rfl
    case storeCount v =>
      cases h
      obtain rfl := hf.stored v rfl
      refine ⟨k, congrArg some (view_congr t fun _ => rfl), ?_⟩
      rw [Counted, hk]
      simp [NopPc.pending]
    all_goals
      cases h
      exact ⟨k, congrArg some (view_congr t fun _ => rfl), hk⟩

/-- What a state says about the call in its section, for the meter in phase `m`. -/
structure MeteredCall (s : State ι) (i : ι) (m : Phase ι) : Prop where
  flags : Flags s.globals (s.call i) (s.nop i).pc (s.instr i).pc
  counted : ∃ k, m = view s.globals (s.nop i).pc i k (s.instr i).pc ∧
    Counted s.globals (s.nop i).pc k

theorem call_events {s s' : State ι} {err : Option Nat}
    (h : step s (.call i err) = some (es, s')) : threadEvents es = [] := by
  change nopTimingStart s i err = some (es, s') at h
  unfold nopTimingStart at h
  cases hpc : (s.call i).pc <;> simp only [hpc] at h
  case notCalled | returned | faulted => cases h
  case createNop | createInstr => cases err <;> cases h <;> rfl
  case bindNop | wakeNop | stopNop =>
    cases hp : s.globals.nopTh <;> rw [hp] at h <;> cases h <;> rfl
  case bindInstr | wakeInstr | stopInstr =>
    cases hp : s.globals.instrTh <;> rw [hp] at h <;> cases h <;> rfl
  case joinNop j | joinInstr j => split at h <;> cases h; rfl
  all_goals cases h; rfl

omit [DecidableEq ι] in
theorem CallPc.clears_of_stage (c : CallPc ι) :
    (c.stage = 1 → c = .clearReset) ∧ (c.stage = 2 → c = .clearPrint) := by
  cases c <;> simp [CallPc.stage]

/-- A statement of the caller is invisible to the meter. -/
theorem call_metered {s s' : State ι} {m : Phase ι} (hi : Inv s)
    (hm : MeteredCall s i m) (hs : step s (.call i none) = some (es, s')) :
    MeteredCall s' i m := by
  obtain ⟨hf, k, rfl, hk⟩ := hm
  have ho := hi.own i
  obtain ⟨hstage, -, hcount, hreset, hprint, hflags, hn, ht, -⟩ := call_step hi hs
  have hclears := (s.call i).pc.clears_of_stage
  -- while a flag is or may be set, the threads run and keep their places
  have hlate : ∀ {t : InstrPc}, t.awaitsReset = true ∨ t.awaitsPrint = true →
      (s.instr i).pc = t → (s'.instr i).pc = t := by
    intro t hw hpc
    rcases ht with ht | ⟨ht, -⟩
    · rw [ht, hpc]
    · rw [← hpc, ht] at hw
      rcases hw with hw | hw <;> cases hw
  have hserves : (s.nop i).pc.servesReset = true ∨ (s.nop i).pc.servesPrint = true →
      3 ≤ (s.call i).pc.stage := by
    intro hs
    by_contra hlt
    rw [ho.nopCreated.mpr (by omega)] at hs
    rcases hs with hs | hs <;> cases hs
  refine ⟨⟨?_, ?_, ?_, ?_, ?_, ?_⟩, k, ?_, ?_⟩
  · intro hle hr
    obtain ⟨hr, hne⟩ := hreset hr
    have h2 : 2 ≤ (s.call i).pc.stage := by
      by_contra hlt
      exact hne (hclears.1 (by omega))
    have hw := hf.reset h2 hr
    rw [hlate (Or.inl hw) rfl]
    exact hw
  · intro hle hp
    obtain ⟨hp, hne⟩ := hprint hp
    have h3 : 3 ≤ (s.call i).pc.stage := by
      by_contra hlt
      exact hne (hclears.2 (by omega))
    have hw := hf.print h3 hp
    rw [hlate (Or.inr hw) rfl]
    exact hw
  · intro hserve
    rcases hn with hn | ⟨-, hn⟩ <;> rw [hn] at hserve
    · rw [(hflags (hserves (Or.inl hserve))).1]
      exact hf.servesReset hserve
    · cases hserve
  · intro hserve
    rcases hn with hn | ⟨-, hn⟩ <;> rw [hn] at hserve
    · rw [(hflags (hserves (Or.inr hserve))).2]
      exact hf.servesPrint hserve
    · cases hserve
  · intro hpc
    rcases hn with hn | ⟨-, hn⟩ <;> rw [hn] at hpc
    · rw [hcount]; exact hf.cleared hpc
    · cases hpc
  · intro v hpc
    rcases hn with hn | ⟨-, hn⟩ <;> rw [hn] at hpc
    · rw [hcount]; exact hf.stored v hpc
    · cases hpc
  · rcases ht with ht | ⟨ht, ht'⟩
    · rw [ht]
      by_cases hle : 12 ≤ (s.call i).pc.stage
      · obtain ⟨hr, hp⟩ := hflags (by omega)
        rcases hn with hn | ⟨hn, -⟩
        · rw [hn]
          unfold view
          rw [hr, hp]
        · have h4 := ho.nopCreated.mp hn
          omega
      · rcases ho.instrAsleep (by omega) with hpc | hpc <;> rw [hpc] <;> rfl
    · rw [ht, ht']
      rfl
  · have hpend : (s'.nop i).pc.pending = (s.nop i).pc.pending := by
      rcases hn with hn | ⟨hn, hn'⟩
      · rw [hn]
      · rw [hn, hn']; rfl
    rw [Counted, hcount, hpend]
    exact hk

/-- **The meter can follow every step of the call in its section.** -/
theorem section_metered {s s' : State ι} {m : Phase ι} {a : Action ι} (hi : Inv s)
    (hsec : (s.call a.actor).pc.InSection) (hm : MeteredCall s a.actor m)
    (ha : ∀ i action, a ≠ .begin i action) (hc : Creates s a) (hs : step s a = some (es, s')) :
    ∃ m', (meter wrap).readFrom m (threadEvents es) = some m' ∧ MeteredCall s' a.actor m' := by
  cases a with
  | begin i action => exact absurd rfl (ha i action)
  | call i err =>
    obtain rfl : err = none := hc
    rw [call_events hs]
    exact ⟨m, rfl, call_metered hi hm hs⟩
  | nop i =>
    simp only [Action.actor] at hm ⊢
    obtain ⟨⟨es', g', n'⟩, hr, he⟩ := Option.map_eq_some_iff.mp hs
    obtain ⟨rfl, rfl⟩ := Prod.mk.inj he
    obtain ⟨hf, k, rfl, hk⟩ := hm
    have h11 := (hi.own i).nopAwake.mp (nopF_step hr).awake.1
    obtain ⟨k', hread, hk'⟩ := nopF_metered hr (by omega) hf hk
    refine ⟨_, hread, ?_, k', ?_, ?_⟩
    · simpa using flags_nop hr hf
    · simp
    · simpa using hk'
  | instr i env =>
    simp only [Action.actor] at hm ⊢
    obtain ⟨⟨es', g', t'⟩, hr, he⟩ := Option.map_eq_some_iff.mp hs
    obtain ⟨rfl, rfl⟩ := Prod.mk.inj he
    obtain ⟨hf, k, rfl, hk⟩ := hm
    have ho := hi.own i
    have h12 := ho.instrAwake.mp (instrF_step hr).awake.1
    have hstop : (s.instr i).shouldStop = true → (s.instr i).Done := by
      intro hs
      have h16 := ho.instrStop.mp hs
      exact ho.instrDone (by omega)
    obtain ⟨hf', hread⟩ := instrF_metered hr (by omega) hstop hf k
    refine ⟨_, hread, ?_, k, ?_, ?_⟩
    · simpa using hf'
    · simp
    · have hcount := (instrF_step hr).count
      simpa [Counted, hcount] using hk
  | sigkill i =>
    obtain ⟨rfl, rfl⟩ := Prod.mk.inj (Option.some.inj hs)
    exact ⟨m, rfl, by simpa [Action.actor] using hm.flags, by simpa [Action.actor] using hm.counted⟩

/-- Outside its section a call and its threads do nothing the meter sees. -/
theorem outside_silent {s s' : State ι} {a : Action ι} (hi : Inv s)
    (hout : ¬ (s.call a.actor).pc.InSection) (ha : ∀ i action, a ≠ .begin i action)
    (hs : step s a = some (es, s')) : threadEvents es = [] := by
  cases a with
  | begin i action => exact absurd rfl (ha i action)
  | call i err => exact call_events hs
  | nop i =>
    obtain ⟨⟨es', g', n'⟩, hr, -⟩ := Option.map_eq_some_iff.mp hs
    have hn := nopF_step hr
    exact absurd ((hi.own i).nop_inSection hn.awake.1 hn.running.2) hout
  | instr i env =>
    obtain ⟨⟨es', g', t'⟩, hr, he⟩ := Option.map_eq_some_iff.mp hs
    obtain ⟨rfl, rfl⟩ := Prod.mk.inj he
    have ht := instrF_step hr
    have ho := hi.own i
    have h12 := ho.instrAwake.mp ht.awake.1
    have hd : (s.instr i).Done := ho.instrDone (by
      by_contra hlt
      exact hout ⟨by simp only [Action.actor]; omega, by simp only [Action.actor]; omega⟩)
    rcases hd with hd | hd
    · simp only [instrF, ht.awake.1, hd, if_true] at hr
      cases hr
      rfl
    · exact absurd hd ht.running.2
  | sigkill i =>
    obtain ⟨rfl, rfl⟩ := Prod.mk.inj (Option.some.inj hs)
    rfl

omit [DecidableEq ι] in
/-- Before and after its section a call measures nothing. -/
theorem view_of_not_inSection {n : NopThread} {t : InstrThread} {k : Nat} (ho : Own i c n t)
    (hout : ¬ c.pc.InSection) : view g n.pc i k t.pc = .idle := by
  by_cases h1 : 1 ≤ c.pc.stage
  · have hd : t.Done := ho.instrDone (by
      by_contra hlt
      exact hout ⟨h1, by omega⟩)
    rcases hd with hd | hd <;> rw [hd] <;> rfl
  · rw [ho.instrCreated.mpr (by omega)]
    rfl

/-- The simulation relation: the meter is where the call in its section says, and
idle when there is none. -/
structure Metered (s : State ι) (m : Phase ι) : Prop where
  inv : Inv s
  inside : ∀ i, (s.call i).pc.InSection → MeteredCall s i m
  outside : (∀ i, ¬ (s.call i).pc.InSection) → m = .idle

theorem metered_step {s s' : State ι} {m : Phase ι} {a : Action ι} (h : Metered s m)
    (hser : Serial s a) (hc : Creates s a) (hs : step s a = some (es, s')) :
    ∃ m', (meter wrap).readFrom m (threadEvents es) = some m' ∧ Metered s' m' := by
  have hi' := inv_step h.inv hser hc hs
  by_cases ha : ∃ i action, a = .begin i action
  · obtain ⟨i, action, rfl⟩ := ha
    obtain rfl := h.outside hser
    obtain ⟨hpc, rfl, rfl⟩ := begin_eq hs
    refine ⟨.idle, rfl, hi', ?_, fun _ => rfl⟩
    intro j hj
    by_cases hji : j = i
    · subst hji
      have hn := (h.inv.own j).nopCreated.mpr (by simp [hpc, CallPc.stage])
      have ht := (h.inv.own j).instrCreated.mpr (by simp [hpc, CallPc.stage])
      refine ⟨?_, 0, ?_, ?_⟩
      · constructor <;> simp [hn, CallPc.stage] <;> intro hserves <;> cases hserves
      · simp only [ht]; rfl
      · simp only [hn]; rfl
    · simp only [Function.update_of_ne hji] at hj
      exact absurd hj (hser j)
  · push Not at ha
    have hf := (keeps_step h.inv ha hc hs).frame
    by_cases hsec : (s.call a.actor).pc.InSection
    · obtain ⟨m', hread, hm'⟩ := section_metered h.inv hsec (h.inside _ hsec) ha hc hs
      refine ⟨m', hread, hi', ?_, ?_⟩
      · intro i hi
        by_cases hia : i = a.actor
        · subst hia; exact hm'
        · rw [hf.call i hia] at hi
          exact absurd (h.inv.exclusive i _ hi hsec) hia
      · intro hnone
        obtain ⟨-, k, rfl, -⟩ := hm'
        exact view_of_not_inSection (hi'.own _) (hnone _)
    · rw [outside_silent h.inv hsec ha hs]
      refine ⟨m, rfl, hi', ?_, ?_⟩
      · intro i hi
        have hia : i ≠ a.actor := by
          rintro rfl
          exact hsec (hf.enters hi)
        rw [hf.call i hia] at hi
        have hm := h.inside i hi
        constructor
        · rw [hf.globals hsec, hf.call i hia, hf.nop i hia, hf.instr i hia]; exact hm.flags
        · rw [hf.globals hsec, hf.nop i hia, hf.instr i hia]; exact hm.counted
      · intro hnone
        refine h.outside fun i hi => ?_
        by_cases hia : i = a.actor
        · subst hia; exact hsec hi
        · exact hnone i (by rw [hf.call i hia]; exact hi)

/-- **The simulation**: the meter accepts every run of serialised calls. -/
theorem metered_run {G : State ι → Action ι → Prop}
    (hG : ∀ s a, G s a → Serial s a ∧ Creates s a) {evs : List (Event ι)} {s : State ι}
    (h : system.Run G initial evs s) :
    ∃ m, (meter wrap).Accepts (threadEvents evs) m ∧ Metered s m := by
  have hinit : Metered (initial : State ι) .idle := by
    refine ⟨inv_initial, fun i hi => ?_, fun _ => rfl⟩
    simp [initial, CallPc.InSection, CallPc.stage] at hi
  exact h.accepted (M := meter wrap) (R := Metered) Event.ofThreads hinit
    fun s m a es s' hm hg hs => metered_step hm (hG s a hg).1 (hG s a hg).2 hs

/-- **What the two threads do in a run of serialised calls is a handshake log.** -/
theorem handshakeLog_run {G : State ι → Action ι → Prop}
    (hG : ∀ s a, G s a → Serial s a ∧ Creates s a) {evs : List (Event ι)} {s : State ι}
    (h : system.Run G initial evs s) : HandshakeLog wrap (threadEvents evs) := by
  obtain ⟨m, hacc, -⟩ := metered_run hG h
  exact meter_accepts_iff.mp ⟨m, hacc⟩

end Simulation

end EcrToolkit.NopTimer
