import EcrToolkit.StraightLine

/-!
# System instructions on an x86 processor

Moves between the general registers and the control and debug registers, the instructions
for the model-specific registers and the ports, and the two non-temporal moves.  What a
processor hard-wires is a parameter (`Model`), and a machine holds only values that can be
held.  What an instruction reads from outside, and whether it raises an exception for a
reason that is not modelled, is the environment's answer.

Memory is what the processor reads, through its caches.  `invd` drops what the caches have
not written back, so the environment also answers what memory holds after it.  The TLB and
the flags are left out: nothing here depends on them.
-/
namespace SystemCode

open StraightLine (low high)

/-! ## The machine -/

/-- The general registers. -/
inductive Gpr
  | rax | rbx | rcx | rdx | rsi | rdi | rbp | rsp
  | r8 | r9 | r10 | r11 | r12 | r13 | r14 | r15
  deriving DecidableEq, Repr

/-- The control and the debug registers. -/
inductive Sys
  | cr0 | cr3 | cr4 | cr8 | dr0 | dr1 | dr2 | dr3 | dr6 | dr7
  deriving DecidableEq, Repr

/-- The debug registers as an instruction names them. -/
inductive DebugName
  | dr0 | dr1 | dr2 | dr3 | dr4 | dr5 | dr6 | dr7
  deriving DecidableEq, Repr

/-- Which bits of a register can be written; the others are hard-wired. -/
structure Model where
  writable : Sys → BitVec 64
  fixed : Sys → BitVec 64

/-- What a register holds after `v` was written to it. -/
def Model.store (m : Model) (r : Sys) (v : BitVec 64) : BitVec 64 :=
  (v &&& m.writable r) ||| (m.fixed r &&& ~~~m.writable r)

/-- Masking and storing a second time changes nothing. -/
theorem Model.store_and_store (m : Model) (r : Sys) (v w : BitVec 64) :
    m.store r (m.store r (v &&& w) &&& w) = m.store r (v &&& w) := by
  refine BitVec.eq_of_getLsbD_eq fun i hi => ?_
  simp only [Model.store, BitVec.getLsbD_or, BitVec.getLsbD_and, BitVec.getLsbD_not, hi]
  cases (m.writable r).getLsbD i <;> cases w.getLsbD i <;> simp

theorem Model.store_store (m : Model) (r : Sys) (v : BitVec 64) :
    m.store r (m.store r v) = m.store r v := by
  have h := m.store_and_store r v (BitVec.allOnes 64)
  rwa [BitVec.and_allOnes, BitVec.and_allOnes] at h

abbrev Registers := Gpr → BitVec 64

/-- Everything but the general registers. -/
structure Machine (m : Model) where
  sys : Sys → BitVec 64
  hardwired : ∀ r, m.store r (sys r) = sys r
  msr : BitVec 32 → BitVec 64
  xmm1 : Fin 16 → BitVec 8
  memory : BitVec 64 → BitVec 8
  /-- The bytes sent, and the ports they were sent to. -/
  sent : List (BitVec 16 × BitVec 8)

structure State (m : Model) where
  regs : Registers
  machine : Machine m

variable {m : Model}

/-- Write a control or a debug register. -/
def Machine.write (c : Machine m) (r : Sys) (v : BitVec 64) : Machine m :=
  { c with
    sys := Function.update c.sys r (m.store r v)
    hardwired := by
      intro x
      by_cases h : x = r
      · subst h
        rw [Function.update_self, m.store_store]
      · rw [Function.update_of_ne h, c.hardwired] }

/-- `CR4.DE`. -/
def Machine.debuggingExtensions (c : Machine m) : Bool := (c.sys .cr4).getLsbD 3

/-- `DR7.GD`. -/
def Machine.generalDetect (c : Machine m) : Bool := (c.sys .dr7).getLsbD 13

/-- The sixteen bytes at `a`. -/
def Machine.bytesAt (c : Machine m) (a : BitVec 64) : Fin 16 → BitVec 8 :=
  fun i => c.memory (a + BitVec.ofNat 64 i)

/-- Store sixteen bytes at `a`. -/
def Machine.storeAt (c : Machine m) (a : BitVec 64) (v : Fin 16 → BitVec 8) : Machine m :=
  { c with memory := fun x => if h : (x - a).toNat < 16 then v ⟨(x - a).toNat, h⟩ else c.memory x }

/-! ## Instructions -/

inductive Instr
  /-- `xor %src, %dst`. -/
  | xor (src dst : Gpr)
  /-- `or $imm, %dst`. -/
  | orImm (imm : BitVec 64) (dst : Gpr)
  /-- `mov %crN, %dst`. -/
  | movFromCr (cr : Sys) (dst : Gpr)
  /-- `mov %src, %crN`. -/
  | movToCr (src : Gpr) (cr : Sys)
  /-- `mov %drN, %dst`. -/
  | movFromDr (n : DebugName) (dst : Gpr)
  /-- `mov %src, %drN`. -/
  | movToDr (src : Gpr) (n : DebugName)
  | clts
  | cpuid
  | rdtsc
  | rdtscp
  | rdpmc
  | rdrand (dst : Gpr)
  | rdseed (dst : Gpr)
  | rdmsr
  | wrmsr
  /-- `inb %dx, %al`. -/
  | inb
  /-- `outb %al, %dx`. -/
  | outb
  | invd
  | wbinvd
  | invlpg (addr : Gpr)
  | clflush (addr : Gpr)
  | sfence
  | mfence
  /-- `movntdqa (%addr), %xmm1`. -/
  | movntdqa (addr : Gpr)
  /-- `movntdq %xmm1, (%addr)`. -/
  | movntdq (addr : Gpr)
  deriving DecidableEq, Repr

/-- What an instruction gets from outside. -/
structure Env where
  /-- It raises an exception, for a reason that is not modelled. -/
  faults : Bool
  /-- What `cpuid` answers in `eax`, `ebx`, `ecx` and `edx`. -/
  cpuid : Gpr → BitVec 32
  counter : BitVec 64
  aux : BitVec 32
  random : BitVec 64
  port : BitVec 8
  /-- What memory holds once `invd` has dropped the modified lines. -/
  memory : BitVec 64 → BitVec 8

/-- The register that `drN` names when `CR4.DE` is clear. -/
def debugRegister : DebugName → Sys
  | .dr0 => .dr0
  | .dr1 => .dr1
  | .dr2 => .dr2
  | .dr3 => .dr3
  | .dr4 | .dr6 => .dr6
  | .dr5 | .dr7 => .dr7

/-- A debug register cannot be accessed: `#DB` for `DR7.GD`, `#UD` for `dr4` and `dr5`. -/
def Machine.refusesDebug (c : Machine m) (n : DebugName) : Bool :=
  c.generalDetect || (c.debuggingExtensions && (n == .dr4 || n == .dr5))

/-- The exceptions that depend on the state. -/
def Instr.refuses (s : State m) : Instr → Bool
  | .movFromDr n _ | .movToDr _ n => s.machine.refusesDebug n
  | .movntdqa addr | .movntdq addr => (s.regs addr).toNat % 16 != 0
  | _ => false

/-- Write the low half of a register, and zero to the upper half. -/
def write32 (r : Registers) (x : Gpr) (v : BitVec 32) : Registers :=
  Function.update r x (v.setWidth 64)

/-- `edx:eax = v`. -/
def writePair (r : Registers) (v : BitVec 64) : Registers :=
  write32 (write32 r .rax (low v)) .rdx (high v)

/-- `edx:eax`. -/
def pair (r : Registers) : BitVec 64 :=
  (low (r .rdx)).setWidth 64 <<< 32 ||| (low (r .rax)).setWidth 64

theorem low_pair (r : Registers) : low (pair r) = low (r .rax) := by
  refine BitVec.eq_of_getLsbD_eq fun i hi => ?_
  have hi' : i < 64 := by omega
  simp [low, pair, hi, hi']

theorem high_pair (r : Registers) : high (pair r) = low (r .rdx) := by
  refine BitVec.eq_of_getLsbD_eq fun i hi => ?_
  have hi' : 32 + i < 64 := by omega
  simp [high, low, pair, hi, hi']

/-- The general registers after an instruction. -/
def Instr.result (env : Env) (s : State m) : Instr → Registers
  | .xor src dst => Function.update s.regs dst (s.regs dst ^^^ s.regs src)
  | .orImm imm dst => Function.update s.regs dst (s.regs dst ||| imm)
  | .movFromCr cr dst => Function.update s.regs dst (s.machine.sys cr)
  | .movFromDr n dst => Function.update s.regs dst (s.machine.sys (debugRegister n))
  | .cpuid =>
    write32 (write32 (write32 (write32 s.regs .rax (env.cpuid .rax)) .rbx (env.cpuid .rbx))
      .rcx (env.cpuid .rcx)) .rdx (env.cpuid .rdx)
  | .rdtsc | .rdpmc => writePair s.regs env.counter
  | .rdtscp => write32 (writePair s.regs env.counter) .rcx env.aux
  | .rdrand dst | .rdseed dst => Function.update s.regs dst env.random
  | .rdmsr => writePair s.regs (s.machine.msr (low (s.regs .rcx)))
  | .inb => Function.update s.regs .rax ((s.regs .rax &&& ~~~0xFF) ||| env.port.setWidth 64)
  | _ => s.regs

/-- Everything else after an instruction. -/
def Instr.effect (env : Env) (s : State m) : Instr → Machine m
  | .movToCr src cr => s.machine.write cr (s.regs src)
  | .movToDr src n => s.machine.write (debugRegister n) (s.regs src)
  | .clts => s.machine.write .cr0 (s.machine.sys .cr0 &&& ~~~8)
  | .wrmsr =>
    { s.machine with msr := Function.update s.machine.msr (low (s.regs .rcx)) (pair s.regs) }
  | .outb =>
    { s.machine with
      sent := s.machine.sent ++ [((s.regs .rdx).setWidth 16, (s.regs .rax).setWidth 8)] }
  | .invd => { s.machine with memory := env.memory }
  | .movntdqa addr => { s.machine with xmm1 := s.machine.bytesAt (s.regs addr) }
  | .movntdq addr => s.machine.storeAt (s.regs addr) s.machine.xmm1
  | _ => s.machine

/-- Execute one instruction; `none` is an exception. -/
def Instr.exec (env : Env) (s : State m) (i : Instr) : Option (State m) :=
  if env.faults || i.refuses s then none else some ⟨i.result env s, i.effect env s⟩

/-- Execute the code to its end; `env n` answers the instruction before the last `n`. -/
def run (env : Nat → Env) : List Instr → State m → Option (State m)
  | [], s => some s
  | i :: is, s => (i.exec (env is.length) s).bind (run env is)

/-! ## One instruction -/

theorem Instr.exec_eq_some_iff {env : Env} {s s' : State m} {i : Instr} :
    i.exec env s = some s' ↔
      env.faults = false ∧ i.refuses s = false ∧ s' = ⟨i.result env s, i.effect env s⟩ := by
  rw [Instr.exec, Option.ite_none_left_eq_some, Bool.or_eq_true, not_or, Bool.not_eq_true,
    Bool.not_eq_true, Option.some.injEq, and_assoc, eq_comm (a := State.mk _ _)]

/-- What an instruction can write. -/
inductive Part
  | gpr (r : Gpr)
  | sys (r : Sys)
  | msr
  | xmm1
  | memory
  | sent
  deriving DecidableEq

/-- The two states agree there. -/
def Part.Same (s s' : State m) : Part → Prop
  | .gpr r => s'.regs r = s.regs r
  | .sys r => s'.machine.sys r = s.machine.sys r
  | .msr => s'.machine.msr = s.machine.msr
  | .xmm1 => s'.machine.xmm1 = s.machine.xmm1
  | .memory => s'.machine.memory = s.machine.memory
  | .sent => s'.machine.sent = s.machine.sent

theorem Part.Same.refl (s : State m) (x : Part) : x.Same s s := by
  cases x <;> exact rfl

theorem Part.Same.trans {s s' s'' : State m} {x : Part} (h : x.Same s s') (h' : x.Same s' s'') :
    x.Same s s'' := by
  cases x <;> exact Eq.trans h' h

/-- What an instruction writes. -/
def Instr.writes : Instr → List Part
  | .xor _ dst | .orImm _ dst | .movFromCr _ dst | .movFromDr _ dst | .rdrand dst
  | .rdseed dst => [.gpr dst]
  | .movToCr _ cr => [.sys cr]
  | .movToDr _ n => [.sys (debugRegister n)]
  | .clts => [.sys .cr0]
  | .cpuid => [.gpr .rax, .gpr .rbx, .gpr .rcx, .gpr .rdx]
  | .rdtsc | .rdpmc | .rdmsr => [.gpr .rax, .gpr .rdx]
  | .rdtscp => [.gpr .rax, .gpr .rdx, .gpr .rcx]
  | .wrmsr => [.msr]
  | .inb => [.gpr .rax]
  | .outb => [.sent]
  | .wbinvd | .invlpg _ | .clflush _ | .sfence | .mfence => []
  | .movntdqa _ => [.xmm1]
  | .movntdq _ | .invd => [.memory]

theorem write32_of_ne (r : Registers) {x y : Gpr} (h : y ≠ x) (v : BitVec 32) :
    write32 r x v y = r y := Function.update_of_ne h ..

theorem writePair_of_ne (r : Registers) {x : Gpr} (hrax : x ≠ .rax) (hrdx : x ≠ .rdx)
    (v : BitVec 64) : writePair r v x = r x := by
  rw [writePair, write32_of_ne _ hrdx, write32_of_ne _ hrax]

/-- The general registers that are not among `writes`. -/
theorem Instr.result_of_notMem (env : Env) (s : State m) {i : Instr} {x : Gpr}
    (hx : .gpr x ∉ i.writes) : i.result env s x = s.regs x := by
  have hne : ∀ {y : Gpr}, (.gpr y : Part) ∈ i.writes → x ≠ y := fun hy h => hx (h ▸ hy)
  cases i with
  | xor src dst | orImm imm dst | movFromCr cr dst | movFromDr n dst | rdrand dst | rdseed dst
  | inb => exact Function.update_of_ne (hne List.mem_cons_self) ..
  | rdtsc | rdpmc | rdmsr =>
    exact writePair_of_ne _ (hne List.mem_cons_self)
      (hne (List.mem_cons_of_mem _ List.mem_cons_self)) _
  | rdtscp =>
    refine (write32_of_ne _ (hne ?_) _).trans (writePair_of_ne _ (hne ?_) (hne ?_) _)
    all_goals simp [Instr.writes]
  | cpuid =>
    refine (write32_of_ne _ (hne ?_) _).trans ((write32_of_ne _ (hne ?_) _).trans
      ((write32_of_ne _ (hne ?_) _).trans (write32_of_ne _ (hne ?_) _)))
    all_goals simp [Instr.writes]
  | movToCr src cr | movToDr src n | clts | wrmsr | outb | invd | wbinvd | invlpg addr
  | clflush addr | sfence | mfence | movntdqa addr | movntdq addr => rfl

theorem Machine.write_sys_of_ne (c : Machine m) {r x : Sys} (h : x ≠ r) (v : BitVec 64) :
    (c.write r v).sys x = c.sys x := Function.update_of_ne h ..

/-- **An instruction leaves alone what it does not write.** -/
theorem Instr.exec_frame {env : Env} {s s' : State m} {i : Instr} (h : i.exec env s = some s')
    {x : Part} (hx : x ∉ i.writes) : x.Same s s' := by
  obtain ⟨-, -, rfl⟩ := Instr.exec_eq_some_iff.mp h
  cases x with
  | gpr r => exact i.result_of_notMem env s hx
  | sys r =>
    cases i with
    | movToCr src cr | movToDr src n | clts =>
      exact Machine.write_sys_of_ne _ (fun h => hx (List.mem_singleton.mpr (congrArg Part.sys h))) _
    | _ => rfl
  | msr | xmm1 | memory | sent =>
    cases i with
    | wrmsr | invd | movntdqa addr | movntdq addr | outb =>
      first | rfl | exact absurd List.mem_cons_self hx
    | _ => rfl

/-! ## Code -/

variable {env : Nat → Env} {s s' : State m}

theorem run_nil : run env [] s = some s' ↔ s = s' := Option.some_inj

theorem run_cons {i : Instr} {is : List Instr} : run env (i :: is) s = some s' ↔
    ∃ s₁, i.exec (env is.length) s = some s₁ ∧ run env is s₁ = some s' := Option.bind_eq_some_iff

theorem run_singleton {i : Instr} : run env [i] s = some s' ↔ i.exec (env 0) s = some s' := by
  constructor
  · intro h
    obtain ⟨s₁, h₁, h₂⟩ := run_cons.mp h
    rwa [← run_nil.mp h₂]
  · exact fun h => run_cons.mpr ⟨s', h, run_nil.mpr rfl⟩

/-- **Code leaves alone what none of its instructions writes.** -/
theorem run_frame {is : List Instr} (h : run env is s = some s') {x : Part}
    (hx : ∀ i ∈ is, x ∉ i.writes) : x.Same s s' := by
  induction is generalizing s with
  | nil =>
    obtain rfl := run_nil.mp h
    exact .refl s x
  | cons i is ih =>
    obtain ⟨hi, his⟩ := List.forall_mem_cons.mp hx
    obtain ⟨s₁, h₁, hrest⟩ := run_cons.mp h
    exact (Instr.exec_frame h₁ hi).trans (ih hrest his)

/-! ## What comes back unchanged -/

/-- **Writing back what a register holds** changes nothing. -/
theorem Machine.write_self (c : Machine m) (r : Sys) : c.write r (c.sys r) = c := by
  obtain ⟨sys, hardwired, msr, xmm1, memory, sent⟩ := c
  have hsame : Function.update sys r (m.store r (sys r)) = sys := by
    rw [hardwired r, Function.update_eq_self]
  simp only [Machine.write, hsame]

end SystemCode
