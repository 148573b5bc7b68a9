import Mathlib.Algebra.Ring.Nat
import Mathlib.Data.List.Basic

/-!
# The measured instructions and the two measurement tables

`instructions.c` has one function for each instruction; `wall_timer.c` and
`nop_timer.c` measure them in the same two orders, a long table (`wall_timing_start`,
`instr_f`) and a short one (`buffer_flush_start`, `buffer_flush_instr_f`).  An
entry is one use of a timing macro: the function, the name it is reported under,
how often it is called, and which wrapper macro guards it.
-/
namespace EcrToolkit

/-- The CPU features `boot_cpu_has` is asked about. -/
inductive Feature
  | rdrand
  | rdseed
  deriving DecidableEq, Repr

/-- The functions of `instructions.c` that a timing loop calls. -/
inductive InstrF
  | xor | cpuid | rdtsc | rdtscp | invd | clts | inb | outb | invlpg
  | movFromCr8 | movToCr0 | movToCr3 | movToCr4 | movToCr8
  | movDr0 | movDr1 | movDr2 | movDr3 | movDr4 | movDr5 | movDr6 | movDr7
  | rdmsr | rdpmc | rdrand | rdseed | wbinvd | wrmsr
  | movntdqa | movntdq | clflush | sfence | mfence
  deriving DecidableEq, Repr

/-- The wrapper a timing loop stands in. -/
inductive Guard
  /-- `TIMING_LOOP`, `NOP_TIMING_LOOP`: no wrapper. -/
  | plain
  /-- `..._SUSPEND_INTERRUPTS`. -/
  | suspendInterrupts
  /-- `..._BOOT_FEATURE_CHECK`. -/
  | bootFeature (f : Feature)
  /-- `..._CHECK_FOR_KMALLOC`. -/
  | kmalloc
  deriving DecidableEq, Repr

/-- One use of a timing macro. -/
structure TimingLoop where
  functionCall : InstrF
  printName : String
  loopIterations : Nat
  guard : Guard
  deriving DecidableEq, Repr

namespace TimingLoop

/-- `TIMING_LOOP(f, name, n)` and `NOP_TIMING_LOOP(f, name, n)`. -/
def plain (f : InstrF) (name : String) (n : Nat) : TimingLoop := ⟨f, name, n, .plain⟩

/-- The `_SUSPEND_INTERRUPTS` macros. -/
def suspendInterrupts (f : InstrF) (name : String) (n : Nat) : TimingLoop :=
  ⟨f, name, n, .suspendInterrupts⟩

/-- The `_BOOT_FEATURE_CHECK` macros. -/
def bootFeatureCheck (f : InstrF) (name : String) (n : Nat) (feature : Feature) : TimingLoop :=
  ⟨f, name, n, .bootFeature feature⟩

/-- The `_CHECK_FOR_KMALLOC` macros. -/
def checkForKmalloc (f : InstrF) (name : String) (n : Nat) : TimingLoop :=
  ⟨f, name, n, .kmalloc⟩

end TimingLoop

open TimingLoop in
/-- The loops of `wall_timing_start` and of `instr_f`. -/
def standardLoops : List TimingLoop :=
  [ plain .xor "XOR" 100,
    plain .cpuid "CPUID" 100,
    plain .rdtsc "RDTSC" 100,
    plain .rdtscp "RDTSCP" 100,
    plain .invd "INVD" 100,
    plain .clts "CLTS" 100,
    plain .inb "INB" 100,
    plain .outb "OUTB" 100,
    plain .invlpg "INVLPG" 100,
    suspendInterrupts .movFromCr8 "MOV_FROM_CR8" 100,
    suspendInterrupts .movToCr0 "MOV_TO_CR0" 100,
    suspendInterrupts .movToCr3 "MOV_TO_CR3" 100,
    suspendInterrupts .movToCr4 "MOV_TO_CR4" 100,
    suspendInterrupts .movToCr8 "MOV_TO_CR8" 100,
    suspendInterrupts .movDr0 "MOV_DR0" 100,
    suspendInterrupts .movDr1 "MOV_DR1" 100,
    suspendInterrupts .movDr2 "MOV_DR2" 100,
    suspendInterrupts .movDr3 "MOV_DR3" 100,
    suspendInterrupts .movDr4 "MOV_DR4" 100,
    suspendInterrupts .movDr5 "MOV_DR5" 100,
    suspendInterrupts .movDr6 "MOV_DR6" 100,
    suspendInterrupts .movDr7 "MOV_DR7" 100,
    plain .rdmsr "RDMSR" 100,
    plain .rdpmc "RDPMC" 100,
    bootFeatureCheck .rdrand "RDRAND" 100 .rdrand,
    bootFeatureCheck .rdseed "RDSEED" 100 .rdseed,
    plain .wbinvd "WBINVD" 100,
    plain .wrmsr "WRMSR" 100,
    checkForKmalloc .movntdqa "MOVNTDQA" 100,
    checkForKmalloc .movntdq "MOVNTDQ" 100 ]

open TimingLoop in
/-- The loops of `buffer_flush_start` and of `buffer_flush_instr_f`. -/
def flushLoops : List TimingLoop :=
  [ checkForKmalloc .clflush "CLFLUSH" 100,
    plain .sfence "SFENCE" 100,
    plain .mfence "MFENCE" 100 ]

end EcrToolkit
