import EcrToolkit.Buffer
import EcrToolkit.Figures
import EcrToolkit.InstructionBodies
import EcrToolkit.WallRun

/-!
# What a WALL ioctl leaves behind

A run of `wall_timing_start` calls the functions of `instructions.c`, and these change the
machine.  The calls follow the table (`wallTimingLoops_calls`), and whatever is called in
whatever order, little of the system registers can have changed (`Calls.sys_eq`,
`Calls.msr_eq`, `Calls.sent_eq`).

What else runs on the CPU between two calls is a relation.  It may do anything to memory and
to the registers of a process, and is assumed to leave the rest alone (`Unobtrusive`).
-/
namespace EcrToolkit

open AtomicProgram SystemCode

/-! ## Calls -/

/-- A call of a function, and the value of `vmem_aligned` that it finds. -/
structure InstrCall where
  functionCall : InstrF
  vmemAligned : BitVec 64

variable {m : Model} {k : Allocation} {between : Machine m → Machine m → Prop}
  {is : List InstrCall} {c c' : Machine m}

/-- Calls one after another, with anything in the general registers before each.  `between` is
what else can happen on the CPU before, between and after them. -/
inductive Calls (k : Allocation) (between : Machine m → Machine m → Prop) :
    List InstrCall → Machine m → Machine m → Prop
  | nil {c c' : Machine m} (hrest : between c c') : Calls k between [] c c'
  | cons {i : InstrCall} {is : List InstrCall} {c c₀ c₁ c' : Machine m} (env : Nat → Env)
    (regs regs₁ : Registers) (hbefore : between c c₀)
    (h : (i.functionCall.asm k i.vmemAligned).exec env ⟨regs, c₀⟩ = some ⟨regs₁, c₁⟩)
    (hs : Calls k between is c₁ c') : Calls k between (i :: is) c c'

/-- What happens between the calls need not be anything, and leaves the control and the debug
registers, the model-specific registers and the ports as they are. -/
structure Unobtrusive (between : Machine m → Machine m → Prop) : Prop where
  idle : ∀ c, between c c
  sys : ∀ c c', between c c' → c'.sys = c.sys
  msr : ∀ c c', between c c' → c'.msr = c.msr
  sent : ∀ c c', between c c' → c'.sent = c.sent

/-- The control and debug registers after calls of these functions. -/
def settled (m : Model) (fs : List InstrF) (σ : Sys → BitVec 64) (r : Sys) : BitVec 64 :=
  if r = .cr0 ∧ .clts ∈ fs then m.store .cr0 (σ .cr0 &&& ~~~8)
  else if r = .cr8 ∧ .movToCr8 ∈ fs then m.store .cr8 1
  else σ r

theorem settled_cons (f : InstrF) (fs : List InstrF) (σ : Sys → BitVec 64) :
    settled m (f :: fs) σ = settled m fs (f.sysAfter m σ) := by
  funext r
  by_cases hclts : f = .clts
  · subst hclts
    cases r
    case cr0 => simp [settled, InstrF.sysAfter, Model.store_and_store]
    all_goals simp [settled, InstrF.sysAfter]
  by_cases hcr8 : f = .movToCr8
  · subst hcr8
    cases r
    all_goals simp [settled, InstrF.sysAfter]
  · have hsame : f.sysAfter m σ = σ := by
      cases f
      case clts => exact absurd rfl hclts
      case movToCr8 => exact absurd rfl hcr8
      all_goals rfl
    rw [hsame]
    simp [settled, Ne.symm hclts, Ne.symm hcr8]

/-- **The control and debug registers** after any calls. -/
theorem Calls.sys_eq (hb : Unobtrusive between) (h : Calls k between is c c') :
    c'.sys = settled m (is.map (·.functionCall)) c.sys := by
  induction h with
  | nil hrest => exact (hb.sys _ _ hrest).trans (funext fun r => by simp [settled])
  | cons env regs regs₁ hbefore h hs ih =>
    rw [ih, List.map_cons, settled_cons, ← hb.sys _ _ hbefore]
    exact congrArg _ (InstrF.sys_eq h)

/-- **`TEST_CTL`** after any calls: overwritten, if `wrmsr_f` is among them. -/
theorem Calls.msr_eq (hb : Unobtrusive between) (h : Calls k between is c c') :
    (.wrmsr ∉ is.map (·.functionCall) → c'.msr = c.msr) ∧
      (.wrmsr ∈ is.map (·.functionCall) →
        ∃ v, HalfZero v ∧ c'.msr = Function.update c.msr testCtl v) := by
  induction h with
  | nil hrest => exact ⟨fun _ => hb.msr _ _ hrest, fun hin => absurd hin List.not_mem_nil⟩
  | @cons i is c c₀ c₁ c' env regs regs₁ hbefore h hs ih =>
    obtain ⟨hrest, hlater⟩ := ih
    rw [List.map_cons, List.mem_cons, not_or, ← hb.msr _ _ hbefore]
    refine ⟨fun ⟨hi, hnot⟩ => (hrest hnot).trans (InstrF.msr_eq (Ne.symm hi) h), fun hin => ?_⟩
    by_cases hi : i.functionCall = .wrmsr
    · rw [hi] at h
      obtain ⟨v, hv, hmsr⟩ := msr_of_wrmsr h
      by_cases hagain : .wrmsr ∈ is.map (·.functionCall)
      · obtain ⟨w, hw, hmsr'⟩ := hlater hagain
        refine ⟨w, hw, hmsr'.trans ?_⟩
        exact (congrArg (Function.update · testCtl w) hmsr).trans (Function.update_idem ..)
      · exact ⟨v, hv, (hrest hagain).trans hmsr⟩
    · obtain ⟨w, hw, hmsr'⟩ := hlater (hin.resolve_left (Ne.symm hi))
      exact ⟨w, hw, hmsr'.trans (congrArg (Function.update · testCtl w) (InstrF.msr_eq hi h))⟩

/-- **The ports** after any calls: one zero for every call of `outb_f`. -/
theorem Calls.sent_eq (hb : Unobtrusive between) (h : Calls k between is c c') :
    c'.sent = c.sent ++ List.replicate ((is.map (·.functionCall)).count .outb) (0x3F8, 0) := by
  induction h with
  | nil hrest => exact (hb.sent _ _ hrest).trans (List.append_nil _).symm
  | @cons i is c c₀ c₁ c' env regs regs₁ hbefore h hs ih =>
    rw [ih, List.map_cons, List.count_cons, ← hb.sent _ _ hbefore]
    by_cases hi : i.functionCall = .outb
    · rw [hi] at h ⊢
      have hsent : c₁.sent = c₀.sent ++ [(0x3F8, 0)] := sent_of_outb h
      rw [hsent, List.append_assoc, List.singleton_append,
        if_pos (beq_self_eq_true _), List.replicate_succ]
    · have hsent : c₁.sent = c₀.sent := InstrF.sent_eq hi h
      rw [hsent, if_neg (by simpa using hi), Nat.add_zero]

/-! ## Exceptions -/

theorem refusesDebug_sysAfter {c₁ : Machine m} {f : InstrF} (h : c₁.sys = f.sysAfter m c.sys) :
    c₁.generalDetect = c.generalDetect ∧ c₁.debuggingExtensions = c.debuggingExtensions := by
  have hdr7 : f.sysAfter m c.sys .dr7 = c.sys .dr7 := by
    cases f <;> simp [InstrF.sysAfter]
  have hcr4 : f.sysAfter m c.sys .cr4 = c.sys .cr4 := by
    cases f <;> simp [InstrF.sysAfter]
  rw [Machine.generalDetect, Machine.debuggingExtensions, h, hdr7, hcr4]
  exact ⟨rfl, rfl⟩

theorem Unobtrusive.refusesDebug (hb : Unobtrusive between) (h : between c c') :
    c'.generalDetect = c.generalDetect ∧ c'.debuggingExtensions = c.debuggingExtensions := by
  rw [Machine.generalDetect, Machine.debuggingExtensions, hb.sys _ _ h]
  exact ⟨rfl, rfl⟩

/-- **No exception** was raised, so `DR7.GD` was clear if a debug register was accessed, and
`CR4.DE` if `dr4` was. -/
theorem Calls.allowed (hb : Unobtrusive between) (h : Calls k between is c c') {i : InstrCall}
    (hi : i ∈ is) {n : DebugName} (hn : i.functionCall.debugAccess = some n) :
    c.refusesDebug n = false := by
  induction h with
  | nil hrest => exact absurd hi List.not_mem_nil
  | @cons j is c c₀ c₁ c' env regs regs₁ hbefore h hs ih =>
    obtain ⟨hgd₀, hde₀⟩ := hb.refusesDebug hbefore
    rw [Machine.refusesDebug, ← hgd₀, ← hde₀]
    rcases List.mem_cons.mp hi with rfl | hi
    · have hallowed := InstrF.debug_allowed hn h
      exact hallowed
    · obtain ⟨hgd, hde⟩ := refusesDebug_sysAfter (InstrF.sys_eq h)
      have hlater := ih hi
      rwa [Machine.refusesDebug, hgd, hde] at hlater

/-- `timing_kmalloc` stores multiples of 16; the initial value is `alignVmem 0`. -/
theorem alignVmem_aligned (vmem : BitVec 64) : (alignVmem vmem).toNat % 16 = 0 := by
  rw [alignVmem, Device.toNat_and_not_fifteen]
  omega

/-- What the calls have found in `vmem_aligned` was stored there by `timing_kmalloc`, or is
the initial value. -/
def Stored (is : List InstrCall) : Prop := ∀ i ∈ is, ∃ vmem, i.vmemAligned = alignVmem vmem

/-- **Any calls can be made** with both bits clear. -/
theorem exists_calls (k : Allocation) (hb : Unobtrusive between) (hgd : c.generalDetect = false)
    (hde : c.debuggingExtensions = false) (hstored : Stored is) :
    ∃ c', Calls k between is c c' := by
  induction is generalizing c with
  | nil => exact ⟨c, .nil (hb.idle c)⟩
  | cons i is ih =>
    obtain ⟨⟨vmem, hi⟩, his⟩ := List.forall_mem_cons.mp hstored
    have haligned : i.vmemAligned.toNat % 16 = 0 := hi ▸ alignVmem_aligned vmem
    obtain ⟨env, ⟨regs₁, c₁⟩, h⟩ := i.functionCall.exists_exec k (fun _ => 0) hgd hde haligned
    obtain ⟨hgd', hde'⟩ := refusesDebug_sysAfter (InstrF.sys_eq h)
    obtain ⟨c', hs⟩ := ih (hgd'.trans hgd) (hde'.trans hde) his
    exact ⟨c', .cons env _ regs₁ (hb.idle c) h hs⟩

/-! ## The calls of a run -/

def functions (is : List InstrCall) : List InstrF := is.map (·.functionCall)

/-- A loop that can be left out. -/
def Guard.optional : Guard → Bool
  | .bootFeature _ | .kmalloc => true
  | .plain | .suspendInterrupts => false

/-- The functions a loop calls. -/
def LoopCalls (l : TimingLoop) (fs : List InstrF) : Prop :=
  fs = List.replicate l.loopIterations l.functionCall ∨ l.guard.optional = true ∧ fs = []

/-- The functions the loops of a table call. -/
def TableCalls : List TimingLoop → List InstrF → Prop
  | [], fs => fs = []
  | l :: ls, fs => ∃ fs₁ fs₂, fs = fs₁ ++ fs₂ ∧ LoopCalls l fs₁ ∧ TableCalls ls fs₂

variable {ls ls' : List TimingLoop} {fs : List InstrF}

theorem TableCalls.append (h : TableCalls (ls ++ ls') fs) :
    ∃ fs₁ fs₂, fs = fs₁ ++ fs₂ ∧ TableCalls ls fs₁ ∧ TableCalls ls' fs₂ := by
  induction ls generalizing fs with
  | nil => exact ⟨[], fs, rfl, rfl, h⟩
  | cons l ls ih =>
    obtain ⟨gs, fs', rfl, hl, hrest⟩ := h
    obtain ⟨fs₁, fs₂, rfl, h₁, h₂⟩ := ih hrest
    exact ⟨gs ++ fs₁, fs₂, (List.append_assoc ..).symm, ⟨gs, fs₁, rfl, hl, h₁⟩, h₂⟩

/-- How often a function is called whose loops cannot be left out. -/
theorem TableCalls.count_eq (h : TableCalls ls fs) {f : InstrF}
    (hf : ∀ l ∈ ls, l.functionCall = f → l.guard.optional = false) :
    fs.count f = ((ls.filter (·.functionCall = f)).map (·.loopIterations)).sum := by
  induction ls generalizing fs with
  | nil =>
    obtain rfl : fs = [] := h
    rfl
  | cons l ls ih =>
    obtain ⟨hl', hls⟩ := List.forall_mem_cons.mp hf
    obtain ⟨gs, fs', rfl, hl, hrest⟩ := h
    rw [List.count_append, ih hrest hls]
    by_cases hcall : l.functionCall = f
    · have hgs : gs = List.replicate l.loopIterations l.functionCall :=
        hl.resolve_right fun ⟨hopt, _⟩ => by
          rw [hl' hcall] at hopt
          cases hopt
      rw [List.filter_cons_of_pos (by simpa using hcall), List.map_cons, List.sum_cons, hgs, hcall,
        List.count_replicate_self]
    · have hgs : gs.count f = 0 := by
        refine List.count_eq_zero.mpr fun hin => ?_
        rcases hl with rfl | ⟨-, rfl⟩
        · exact hcall (List.eq_of_mem_replicate hin).symm
        · cases hin
      rw [List.filter_cons_of_neg (by simpa using hcall), hgs, Nat.zero_add]

/-! ## What is left behind -/

/-- **The functions of the standard table on a processor**: they can all be executed if and only
if debug registers can be accessed, `dr4` and `dr5` among them; and then little has changed. -/
theorem TableCalls.leaves (htable : TableCalls standardLoops (functions is)) (k : Allocation)
    (hb : Unobtrusive between) (c : Machine m) (hstored : Stored is) :
    ((∃ c', Calls k between is c c') ↔
      c.generalDetect = false ∧ c.debuggingExtensions = false) ∧
    ∀ c', Calls k between is c c' →
      c'.sys = Function.update (Function.update c.sys .cr0 (m.store .cr0 (c.sys .cr0 &&& ~~~8)))
        .cr8 (m.store .cr8 1) ∧
      (∃ v, HalfZero v ∧ c'.msr = Function.update c.msr testCtl v) ∧
      c'.sent = c.sent ++ List.replicate 100 (0x3F8, 0) := by
  have hcount : ∀ f ∈ [InstrF.clts, .outb, .movToCr8, .movDr4, .wrmsr],
      (functions is).count f = 100 := by
    intro f hf
    have hplain : ∀ f ∈ [InstrF.clts, .outb, .movToCr8, .movDr4, .wrmsr],
        (∀ l ∈ standardLoops, l.functionCall = f → l.guard.optional = false) ∧
          ((standardLoops.filter (·.functionCall = f)).map (·.loopIterations)).sum = 100 := by
      decide
    exact (htable.count_eq (hplain f hf).1).trans (hplain f hf).2
  have hmem : ∀ f ∈ [InstrF.clts, .outb, .movToCr8, .movDr4, .wrmsr], f ∈ functions is :=
    fun f hf => List.count_pos_iff.mp (by rw [hcount f hf]; decide)
  refine ⟨⟨fun ⟨c', hcalls⟩ => ?_, fun ⟨hgd, hde⟩ => exists_calls k hb hgd hde hstored⟩,
    fun c' hcalls => ⟨?_, ?_, ?_⟩⟩
  · -- `MOV_DR4` has been measured
    obtain ⟨i, hi, hfun⟩ := List.mem_map.mp (hmem .movDr4 (by decide))
    have hallowed : c.refusesDebug .dr4 = false := hcalls.allowed hb hi (by rw [hfun]; rfl)
    rw [Machine.refusesDebug] at hallowed
    simpa using hallowed
  · rw [hcalls.sys_eq hb]
    funext x
    have hclts := hmem .clts (by decide)
    have hcr8 := hmem .movToCr8 (by decide)
    rw [functions] at hclts hcr8
    cases x <;> simp [settled, hclts, hcr8]
  · exact (hcalls.msr_eq hb).2 (hmem .wrmsr (by decide))
  · have hsent := hcalls.sent_eq hb
    rwa [← functions, hcount .outb (by decide)] at hsent

end EcrToolkit
