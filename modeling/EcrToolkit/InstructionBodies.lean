import EcrToolkit.Handlers
import EcrToolkit.SystemCode

/-!
# The `asm` statements of `instructions.c`

Each function is one statement, with its operands in the registers that the constraints
name, and the registers that it declares to be clobbered.  The compiler relies on the
declaration; `declared_iff` says which functions keep to it.  What a function does to the
control and debug registers is `InstrF.sysAfter`.
-/
namespace EcrToolkit

open SystemCode

/-- An `asm` statement with its operands.  Nothing but memory and registers can be declared. -/
structure Asm where
  code : List Instr
  inputs : List (Gpr × BitVec 64)
  outputs : List Gpr
  clobbers : List Part

/-- What the constraints leave to the compiler. -/
structure Allocation where
  /-- `"=rax"(data)`: any register. -/
  data : Gpr
  /-- `"A"(in_eaxedx)`: on a 64-bit machine, one of the two. -/
  eaxedx : { r : Gpr // r = .rax ∨ r = .rdx }

namespace Asm

/-- `asm volatile("...")`: no operands and no declaration. -/
def basic (code : List Instr) : Asm := ⟨code, [], [], []⟩

/-- `mov %crN, %rax` and `mov %rax, %crN`. -/
def moveControl (cr : Sys) : Asm := basic [.movFromCr cr .rax, .movToCr .rax cr]

/-- `mov %drN, %rax` and `mov %rax, %drN`. -/
def moveDebug (n : DebugName) : Asm := basic [.movFromDr n .rax, .movToDr .rax n]

end Asm

/-- The serial port. -/
def serialPort : BitVec 64 := 0x3F8

/-- `TEST_CTL`. -/
def testCtl : BitVec 32 := 0x33

open Asm in
/-- The statement of a function.  An `int` in a register has been moved there, which clears
the upper half. -/
def InstrF.asm (k : Allocation) (vmemAligned : BitVec 64) : InstrF → Asm
  | .xor => ⟨[.xor .rax .rax], [], [], [.gpr .rax]⟩
  | .cpuid => ⟨[.cpuid], [], [], [.gpr .rax, .gpr .rbx, .gpr .rcx, .gpr .rdx]⟩
  | .rdtsc => ⟨[.rdtsc], [], [], [.gpr .rax, .gpr .rdx]⟩
  | .rdtscp => ⟨[.rdtscp], [], [], [.gpr .rax, .gpr .rcx, .gpr .rdx]⟩
  | .invd => basic [.invd]
  | .clts => basic [.clts]
  | .inb => ⟨[.inb], [(.rdx, serialPort)], [.rax], []⟩
  | .outb => ⟨[.outb], [(.rax, 0), (.rdx, serialPort)], [], []⟩
  | .invlpg => ⟨[.invlpg .rbx], [(.rbx, 0)], [], [.memory]⟩
  | .movFromCr8 => basic [.movFromCr .cr8 .rax]
  | .movToCr0 => moveControl .cr0
  | .movToCr3 => moveControl .cr3
  | .movToCr4 => moveControl .cr4
  | .movToCr8 => basic [.xor .rax .rax, .orImm 1 .rax, .movToCr .rax .cr8]
  | .movDr0 => moveDebug .dr0
  | .movDr1 => moveDebug .dr1
  | .movDr2 => moveDebug .dr2
  | .movDr3 => moveDebug .dr3
  | .movDr4 => moveDebug .dr4
  | .movDr5 => moveDebug .dr5
  | .movDr6 => moveDebug .dr6
  | .movDr7 => moveDebug .dr7
  | .rdmsr => ⟨[.rdmsr], [(.rcx, testCtl.setWidth 64)], [.rax, .rdx], [.gpr .rbx]⟩
  | .rdpmc => ⟨[.rdpmc], [(.rcx, 0x40000000)], [.rax, .rdx], []⟩
  | .rdrand => ⟨[.rdrand k.data], [], [k.data], []⟩
  | .rdseed => ⟨[.rdseed k.data], [], [k.data], []⟩
  | .wbinvd => basic [.wbinvd]
  | .wrmsr => ⟨[.wrmsr], [(.rcx, testCtl.setWidth 64), (k.eaxedx, 0)], [], []⟩
  | .movntdqa => ⟨[.movntdqa .rcx], [(.rcx, vmemAligned)], [], [.memory]⟩
  | .movntdq => ⟨[.movntdq .rcx], [(.rcx, vmemAligned)], [], [.memory]⟩
  | .clflush => ⟨[.clflush .rcx], [(.rcx, vmemAligned)], [], []⟩
  | .sfence => basic [.sfence]
  | .mfence => basic [.mfence]

/-- The statement of `cpuid_test_support_f`. -/
def cpuidTestSupportFAsm : Asm := ⟨[.cpuid], [(.rax, 1)], [.rcx], [.gpr .rbx, .gpr .rdx]⟩

/-- The statement of `cache_timing_flush`. -/
def cacheTimingFlushAsm (addr : BitVec 64) : Asm :=
  ⟨[.clflush .rcx, .mfence], [(.rcx, addr)], [], [.gpr .rax]⟩

variable {m : Model} {k : Allocation} {a : BitVec 64} {env : Nat → Env} {s s' : State m}

/-- The registers with the inputs in them. -/
def Asm.load (asm : Asm) (regs : Registers) : Registers :=
  asm.inputs.foldl (fun r p => Function.update r p.1 p.2) regs

/-- Execute a statement. -/
def Asm.exec (asm : Asm) (env : Nat → Env) (s : State m) : Option (State m) :=
  run env asm.code { s with regs := asm.load s.regs }

/-! ## The declarations -/

/-- What a statement declares. -/
def Asm.declares (asm : Asm) : List Part := asm.outputs.map .gpr ++ asm.clobbers

/-- What the compiler keeps values in. -/
def compilerParts (x : Part) : Prop := (∃ r, x = .gpr r) ∨ x = .xmm1 ∨ x = .memory

/-- **A statement keeps to its declaration**: on every processor, whatever it finds and
whatever is answered, the compiler finds everything else as it left it. -/
def Asm.Declared (asm : Asm) : Prop :=
  ∀ (m : Model) (env : Nat → Env) (s s' : State m), asm.exec env s = some s' →
    ∀ x, compilerParts x → x ∉ asm.declares → x.Same { s with regs := asm.load s.regs } s'

/-- The declaration names everything that the code writes. -/
theorem Asm.declared_of_subset {asm : Asm} (h : ∀ i ∈ asm.code, ∀ x ∈ i.writes,
    x ∈ asm.declares ∨ x = .msr ∨ x = .sent ∨ ∃ r, x = .sys r) : asm.Declared := by
  intro m env s s' hexec x hx hnot
  refine run_frame hexec fun i hi hwrites => ?_
  rcases h i hi x hwrites with hdecl | rfl | rfl | ⟨r, rfl⟩
  · exact hnot hdecl
  all_goals rcases hx with ⟨_, hx⟩ | hx | hx <;> cases hx

/-- The functions that write something without a declaration: memory, `rax`, or `xmm1`. -/
def undeclared : List InstrF :=
  [.invd, .movFromCr8, .movToCr0, .movToCr3, .movToCr4, .movToCr8, .movDr0, .movDr1, .movDr2,
    .movDr3, .movDr4, .movDr5, .movDr6, .movDr7, .movntdqa]

/-- A processor with nothing hard-wired. -/
def plainModel : Model := ⟨fun _ => BitVec.allOnes 64, fun _ => 0⟩

/-- Every control and debug register and every byte of memory is 1, everything else 0. -/
def ones : State plainModel where
  regs _ := 0
  machine :=
    { sys := fun _ => 1
      hardwired := fun r => by cases r <;> decide
      msr := fun _ => 0
      xmm1 := fun _ => 0
      memory := fun _ => 1
      sent := [] }

/-- No exceptions, and `2` for an answer. -/
def twos : Env := ⟨false, fun _ => 2, 2, 2, 2, 2, fun _ => 2⟩

/-- What the compiler could choose. -/
def plainAllocation : Allocation := ⟨.rbx, .rax, Or.inl rfl⟩

/-- `rax` is not declared, and comes to hold something else. -/
def Asm.WritesRax (asm : Asm) : Prop :=
  .gpr .rax ∉ asm.declares ∧
    ((asm.exec (fun _ => twos) ones).any fun s => s.regs .rax != asm.load ones.regs .rax) = true

instance (asm : Asm) : Decidable asm.WritesRax := inferInstanceAs (Decidable (_ ∧ _))

theorem Asm.WritesRax.not_declared {asm : Asm} (h : asm.WritesRax) : ¬ asm.Declared := by
  obtain ⟨hnot, hany⟩ := h
  intro hdeclared
  obtain ⟨s', hexec, hrax⟩ := Option.any_eq_true _ _ |>.mp hany
  have hsame := hdeclared _ _ _ _ hexec (.gpr .rax) (Or.inl ⟨.rax, rfl⟩) hnot
  exact bne_iff_ne.mp hrax hsame

theorem not_declared_movntdqa : ¬ (InstrF.movntdqa.asm plainAllocation 0).Declared := by
  intro hdeclared
  have hexec : ∃ s', (InstrF.movntdqa.asm plainAllocation 0).exec (fun _ => twos) ones =
      some s' ∧ s'.machine.xmm1 0 = 1 := ⟨_, rfl, rfl⟩
  obtain ⟨s', hexec, hxmm⟩ := hexec
  have hsame : s'.machine.xmm1 = ones.machine.xmm1 :=
    hdeclared _ _ _ _ hexec .xmm1 (Or.inr (Or.inl rfl)) (by decide)
  rw [hsame] at hxmm
  exact absurd hxmm (by decide)

theorem not_declared_invd : ¬ (InstrF.invd.asm plainAllocation 0).Declared := by
  intro hdeclared
  have hexec : ∃ s', (InstrF.invd.asm plainAllocation 0).exec (fun _ => twos) ones =
      some s' ∧ s'.machine.memory 0 = 2 := ⟨_, rfl, rfl⟩
  obtain ⟨s', hexec, hmemory⟩ := hexec
  have hsame : s'.machine.memory = ones.machine.memory :=
    hdeclared _ _ _ _ hexec .memory (Or.inr (Or.inr rfl)) (by decide)
  rw [hsame] at hmemory
  exact absurd hmemory (by decide)

/-- **Which declarations can be relied on**: all but those of the functions that move to and
from control and debug registers, of `invd_f`, which drops modified lines, of `movntdqa_f`, and
of `cpuid_test_support_f`, which overwrites an input. -/
theorem declared_iff :
    (∀ f : InstrF, (∀ k a, (f.asm k a).Declared) ↔ f ∉ undeclared) ∧
      ¬ cpuidTestSupportFAsm.Declared ∧ ∀ addr, (cacheTimingFlushAsm addr).Declared := by
  have hrax : ∀ f ∈ undeclared, f ≠ .movntdqa → f ≠ .invd →
      (f.asm plainAllocation 0).WritesRax := by
    decide +kernel
  have hcpuid : cpuidTestSupportFAsm.WritesRax := by decide +kernel
  refine ⟨fun f => ⟨fun hdeclared hf => ?_, fun hf k a => ?_⟩, hcpuid.not_declared, fun addr => ?_⟩
  · by_cases hntdqa : f = .movntdqa
    · subst hntdqa
      exact not_declared_movntdqa (hdeclared plainAllocation 0)
    by_cases hinvd : f = .invd
    · subst hinvd
      exact not_declared_invd (hdeclared plainAllocation 0)
    · exact (hrax f hf hntdqa hinvd).not_declared (hdeclared plainAllocation 0)
  · refine Asm.declared_of_subset ?_
    revert hf
    cases f
    case rdrand | rdseed => simp [InstrF.asm, Instr.writes, Asm.declares]
    all_goals simp [InstrF.asm, Asm.basic, Asm.moveControl, Asm.moveDebug, Instr.writes,
      Asm.declares, undeclared]
  · exact Asm.declared_of_subset (by simp [cacheTimingFlushAsm, Instr.writes])

/-! ## What a function does to the machine -/

/-- The control and debug registers after a call: `TS` is cleared, or `cr8` is 1, or they are
as they were. -/
def InstrF.sysAfter (m : Model) (σ : Sys → BitVec 64) : InstrF → Sys → BitVec 64
  | .clts => Function.update σ .cr0 (m.store .cr0 (σ .cr0 &&& ~~~8))
  | .movToCr8 => Function.update σ .cr8 (m.store .cr8 1)
  | _ => σ

/-- The debug register that a function accesses. -/
def InstrF.debugAccess : InstrF → Option (DebugName)
  | .movDr0 => some .dr0
  | .movDr1 => some .dr1
  | .movDr2 => some .dr2
  | .movDr3 => some .dr3
  | .movDr4 => some .dr4
  | .movDr5 => some .dr5
  | .movDr6 => some .dr6
  | .movDr7 => some .dr7
  | _ => none

theorem machine_of_moveControl {cr : Sys} (h : (Asm.moveControl cr).exec env s = some s') :
    s'.machine = s.machine := by
  obtain ⟨s₁, h₁, h₂⟩ := run_cons.mp h
  obtain ⟨-, -, rfl⟩ := Instr.exec_eq_some_iff.mp h₁
  obtain ⟨-, -, rfl⟩ := Instr.exec_eq_some_iff.mp (run_singleton.mp h₂)
  have hrax : Function.update s.regs .rax (s.machine.sys cr) .rax = s.machine.sys cr :=
    Function.update_self ..
  exact (congrArg (s.machine.write cr) hrax).trans (s.machine.write_self cr)

theorem machine_of_moveDebug {n : DebugName} (h : (Asm.moveDebug n).exec env s = some s') :
    s'.machine = s.machine ∧ s.machine.refusesDebug n = false := by
  obtain ⟨s₁, h₁, h₂⟩ := run_cons.mp h
  obtain ⟨-, hrefuses, rfl⟩ := Instr.exec_eq_some_iff.mp h₁
  obtain ⟨-, -, rfl⟩ := Instr.exec_eq_some_iff.mp (run_singleton.mp h₂)
  have hrax : Function.update s.regs .rax (s.machine.sys (debugRegister n)) .rax =
      s.machine.sys (debugRegister n) := Function.update_self ..
  exact ⟨(congrArg (s.machine.write (debugRegister n)) hrax).trans (s.machine.write_self _),
    hrefuses⟩

theorem machine_of_movToCr8 (h : (InstrF.movToCr8.asm k a).exec env s = some s') :
    s'.machine = s.machine.write .cr8 1 := by
  obtain ⟨s₁, h₁, h⟩ := run_cons.mp h
  obtain ⟨-, -, rfl⟩ := Instr.exec_eq_some_iff.mp h₁
  obtain ⟨s₂, h₂, h⟩ := run_cons.mp h
  obtain ⟨-, -, rfl⟩ := Instr.exec_eq_some_iff.mp h₂
  obtain ⟨-, -, rfl⟩ := Instr.exec_eq_some_iff.mp (run_singleton.mp h)
  refine congrArg (s.machine.write .cr8) ?_
  -- `xor` clears the register
  let cleared : Registers := Function.update s.regs .rax (s.regs .rax ^^^ s.regs .rax)
  have hcleared : cleared .rax = 0 := (Function.update_self ..).trans BitVec.xor_self
  have hset : Function.update cleared .rax (cleared .rax ||| 1) .rax = cleared .rax ||| 1 :=
    Function.update_self ..
  have hone : cleared .rax ||| 1 = 1 := by
    rw [hcleared]
    rfl
  exact hset.trans hone

/-- A function whose code writes no control or debug register. -/
theorem sys_of_frame {f : InstrF} (h : (f.asm k a).exec env s = some s')
    (hf : ∀ r, ∀ i ∈ (f.asm k a).code, .sys r ∉ i.writes) : s'.machine.sys = s.machine.sys := by
  funext r
  exact run_frame (x := .sys r) h (hf r)

/-- **The control and debug registers** after a function. -/
theorem InstrF.sys_eq {f : InstrF} (h : (f.asm k a).exec env s = some s') :
    s'.machine.sys = f.sysAfter m s.machine.sys := by
  cases f
  case movToCr0 | movToCr3 | movToCr4 => exact congrArg _ (machine_of_moveControl h)
  case movDr0 | movDr1 | movDr2 | movDr3 | movDr4 | movDr5 | movDr6 | movDr7 =>
    exact congrArg _ (machine_of_moveDebug h).1
  case movToCr8 => exact congrArg _ (machine_of_movToCr8 h)
  case clts =>
    obtain ⟨-, -, rfl⟩ := Instr.exec_eq_some_iff.mp (run_singleton.mp h)
    rfl
  all_goals exact sys_of_frame h fun r => by simp [InstrF.asm, Asm.basic, Instr.writes]

/-- A debug register that was accessed could be accessed. -/
theorem InstrF.debug_allowed {f : InstrF} {n : DebugName} (hf : f.debugAccess = some n)
    (h : (f.asm k a).exec env s = some s') : s.machine.refusesDebug n = false := by
  cases f
  case movDr0 | movDr1 | movDr2 | movDr3 | movDr4 | movDr5 | movDr6 | movDr7 =>
    cases hf
    exact (machine_of_moveDebug h).2
  all_goals cases hf

/-- Half of what was written there is 0; the other half was found in a register. -/
def HalfZero (v : BitVec 64) : Prop := StraightLine.low v = 0 ∨ StraightLine.high v = 0

/-- **The model-specific registers**: `wrmsr_f` overwrites `TEST_CTL`, with half of a value. -/
theorem msr_of_wrmsr (h : (InstrF.wrmsr.asm k a).exec env s = some s') :
    ∃ v, HalfZero v ∧ s'.machine.msr = Function.update s.machine.msr testCtl v := by
  obtain ⟨-, -, rfl⟩ := Instr.exec_eq_some_iff.mp (run_singleton.mp h)
  obtain ⟨data, r, hr⟩ := k
  rcases hr with rfl | rfl
  · exact ⟨_, Or.inl (low_pair _), rfl⟩
  · exact ⟨_, Or.inr (high_pair _), rfl⟩

theorem InstrF.msr_eq {f : InstrF} (hf : f ≠ .wrmsr) (h : (f.asm k a).exec env s = some s') :
    s'.machine.msr = s.machine.msr := by
  refine run_frame (x := .msr) h ?_
  revert hf
  cases f <;> simp [InstrF.asm, Asm.basic, Asm.moveControl, Asm.moveDebug, Instr.writes]

/-- **The ports**: `outb_f` sends a zero. -/
theorem sent_of_outb (h : (InstrF.outb.asm k a).exec env s = some s') :
    s'.machine.sent = s.machine.sent ++ [(0x3F8, 0)] := by
  obtain ⟨-, -, rfl⟩ := Instr.exec_eq_some_iff.mp (run_singleton.mp h)
  rfl

theorem InstrF.sent_eq {f : InstrF} (hf : f ≠ .outb) (h : (f.asm k a).exec env s = some s') :
    s'.machine.sent = s.machine.sent := by
  refine run_frame (x := .sent) h ?_
  revert hf
  cases f <;> simp [InstrF.asm, Asm.basic, Asm.moveControl, Asm.moveDebug, Instr.writes]

/-- **A function can be executed** where its debug register can be accessed, with the buffer
aligned. -/
theorem InstrF.exists_exec (f : InstrF) (k : Allocation) {a : BitVec 64} (regs : Registers)
    {c : Machine m} (hgd : c.generalDetect = false) (hde : c.debuggingExtensions = false)
    (ha : a.toNat % 16 = 0) : ∃ env s', (f.asm k a).exec env ⟨regs, c⟩ = some s' := by
  refine ⟨fun _ => twos, ?_⟩
  have hdebug : ∀ n, c.refusesDebug n = false := fun n => by
    rw [Machine.refusesDebug, hgd, hde]
    rfl
  have hmove : ∀ n, ∃ s', (Asm.moveDebug n).exec (fun _ => twos) ⟨regs, c⟩ = some s' := fun n => by
    refine ⟨_, run_cons.mpr ⟨_, Instr.exec_eq_some_iff.mpr ⟨rfl, hdebug n, rfl⟩,
      run_singleton.mpr (Instr.exec_eq_some_iff.mpr ⟨rfl, hdebug n, rfl⟩)⟩⟩
  cases f
  case movDr0 | movDr1 | movDr2 | movDr3 | movDr4 | movDr5 | movDr6 | movDr7 => exact hmove _
  case movntdqa | movntdq =>
    have haligned : (a.toNat % 16 != 0) = false := by
      rw [ha]
      rfl
    exact ⟨_, run_singleton.mpr (Instr.exec_eq_some_iff.mpr ⟨rfl, haligned, rfl⟩)⟩
  all_goals exact ⟨_, rfl⟩

end EcrToolkit
