import EcrToolkit.AtomicProgram
import EcrToolkit.Records

/-!
# The handlers of `main.c`, `cache_timer.c`, `memory_timer.c` and `wall_timer.c`

The functions of the module as programs over atomic operations: each read and
write of `vmem` and `vmem_aligned`, each access of the memory they point to, each
call into the kernel and each log record is one operation.

`nop_timing_start` is the last call of the handlers that make it; a handler hands
over to it by returning `Return.nopTimingStart`.
-/
namespace EcrToolkit

open AtomicProgram

/-! ## Operations -/

/-- The globals an address was computed from. -/
inductive Pointer
  | vmem
  | vmemAligned
  deriving DecidableEq

/-- How memory is accessed. -/
inductive Access
  /-- `*p` for a `uintptr_t *p`. -/
  | word
  /-- The `movl` of `cache_timing_probe` and `memory_timing_probe`. -/
  | probe
  /-- `cache_timing_flush`. -/
  | flush
  | movntdqa
  | movntdq
  | clflush
  deriving DecidableEq

/-- The bytes accessed. -/
def Access.size : Access → Nat
  | .word => 8
  | .probe => 4
  | .movntdqa | .movntdq => 16
  | .flush | .clflush => 1

theorem Access.size_le (a : Access) : a.size ≤ 16 := by
  cases a <;> decide

theorem Access.size_pos (a : Access) : 0 < a.size := by
  cases a <;> decide

/-- One atomic step of a handler. -/
inductive Op
  | prInfo (r : Record)
  | prAlert (r : Record)
  | readVmem
  | writeVmem (p : BitVec 64)
  | readVmemAligned
  | writeVmemAligned (p : BitVec 64)
  | kmalloc (size : Nat)
  | kfree (p : BitVec 64)
  | access (via : Pointer) (a : Access) (p : BitVec 64)
  | execute (f : InstrF)
  | getnstimeofday
  | msleep
  | bootCpuHas (f : Feature)
  | cpuidVmx
  | localIrqSave
  | localIrqDisable
  | localIrqRestore (flags : Bool)
  | localIrqEnable
  | miscRegister
  | miscDeregister
  deriving DecidableEq

/-- What an operation answers: a word loaded, the cycles a probe took, ... -/
def Op.Res : Op → Type
  | .readVmem | .readVmemAligned | .kmalloc _ | .access _ _ _ => BitVec 64
  | .getnstimeofday => Timespec
  | .bootCpuHas _ | .cpuidVmx | .localIrqSave => Bool
  | .miscRegister => Int
  | _ => Unit

/-- The code of the module. -/
abbrev Code := Prog Op Op.Res

def prInfo (r : Record) : Code Unit := .op (.prInfo r) .ret
def prAlert (r : Record) : Code Unit := .op (.prAlert r) .ret
def readVmem : Code (BitVec 64) := .op .readVmem .ret
def writeVmem (p : BitVec 64) : Code Unit := .op (.writeVmem p) .ret
def readVmemAligned : Code (BitVec 64) := .op .readVmemAligned .ret
def writeVmemAligned (p : BitVec 64) : Code Unit := .op (.writeVmemAligned p) .ret
def kmalloc (size : Nat) : Code (BitVec 64) := .op (.kmalloc size) .ret
def kfree (p : BitVec 64) : Code Unit := .op (.kfree p) .ret
def access (via : Pointer) (a : Access) (p : BitVec 64) : Code (BitVec 64) :=
  .op (.access via a p) .ret
def getnstimeofday : Code Timespec := .op .getnstimeofday .ret
def msleep : Code Unit := .op .msleep .ret
def bootCpuHas (f : Feature) : Code Bool := .op (.bootCpuHas f) .ret
def miscRegister : Code Int := .op .miscRegister .ret
def miscDeregister : Code Unit := .op .miscDeregister .ret

/-! ## `instructions.c` -/

/-- The functions a timing loop calls. -/
def InstrF.call : InstrF → Code Unit
  | .movntdqa => do
    let a ← readVmemAligned
    let _ ← access .vmemAligned .movntdqa a
  | .movntdq => do
    let a ← readVmemAligned
    let _ ← access .vmemAligned .movntdq a
  | .clflush => do
    let a ← readVmemAligned
    let _ ← access .vmemAligned .clflush a
  | f => .op (.execute f) .ret

def cpuidTestSupportF : Code Unit := do
  let vmx ← (.op .cpuidVmx .ret : Code Bool)
  if vmx then prInfo .vmxSupported else prInfo .vmxNotSupported

/-- `SUSPEND_INTERRUPTS(FLAGS, CODE)`. -/
def suspendInterrupts (code : Code Unit) : Code Unit := do
  let flags ← (.op .localIrqSave .ret : Code Bool)
  (.op .localIrqDisable .ret : Code Unit)
  code
  (.op (.localIrqRestore flags) .ret : Code Unit)
  (.op .localIrqEnable .ret : Code Unit)

/-! ## `wall_timer.c` -/

/-- `TIMING_LOOP`. -/
def timingLoop (l : TimingLoop) : Code Unit := do
  let tsStart ← getnstimeofday
  Prog.forLoop l.loopIterations () fun _ _ => l.functionCall.call
  let tsEnd ← getnstimeofday
  let testOfTime := timespecSub tsEnd tsStart
  prInfo (.wall l.printName testOfTime.nsec.toNat)

/-- A timing loop in its wrapper. -/
def wallTimingLoop (l : TimingLoop) : Code Unit :=
  match l.guard with
  | .plain => timingLoop l
  | .suspendInterrupts => suspendInterrupts (timingLoop l)
  | .bootFeature f => do
    let has ← bootCpuHas f
    if has then timingLoop l
  | .kmalloc => do
    let vmemAligned ← readVmemAligned
    if vmemAligned ≠ 0 then timingLoop l else prInfo (.wallZero l.printName)

/-- The loops of a table, one after another. -/
def wallTimingLoops : List TimingLoop → Code Unit
  | [] => .ret ()
  | l :: ls => do
    wallTimingLoop l
    wallTimingLoops ls

def wallTimingStart : Code Int := do
  cpuidTestSupportF
  prInfo .aggregatingWall
  wallTimingLoops standardLoops
  return 0

def bufferFlushStart : Code Int := do
  prInfo .aggregatingWallFl
  wallTimingLoops flushLoops
  return 0

/-! ## `cache_timer.c` -/

/-- `COUNT`. -/
def cacheCount : Nat := 100

/-- `avg += t` for `int avg` and `unsigned long t`. -/
def addCycles (avg : BitVec 32) (t : BitVec 64) : BitVec 32 :=
  (avg.signExtend 64 + t).truncate 32

/-- `(char *) (vmem_aligned+offset)`: the offset counts elements of eight bytes. -/
def elementAddress (vmemAligned : BitVec 64) (offset : BitVec 32) : BitVec 64 :=
  vmemAligned + 8 * offset.signExtend 64

def cacheTimingHandler (offset : BitVec 32) : Code Unit := do
  let sum ← Prog.forLoop cacheCount (0 : BitVec 32) fun _ avg => do
    let a ← readVmemAligned
    let _ ← access .vmemAligned .flush (elementAddress a offset)
    msleep
    let a ← readVmemAligned
    let t ← access .vmemAligned .probe (elementAddress a offset)
    return addCycles avg t
  let avg := sum.sdiv (BitVec.ofNat 32 cacheCount)
  let a ← readVmemAligned
  prInfo (.averageCycles (a + offset.signExtend 64) offset avg)

def cacheTimingStart : Code Int := do
  cacheTimingHandler 0
  cacheTimingHandler 64
  cacheTimingHandler 128
  cacheTimingHandler 256
  cacheTimingHandler 4096
  return 0

/-! ## `memory_timer.c` -/

/-- `PAGE_SIZE`. -/
def pageSize : Nat := 4096

/-- `(char *) &array[i]` for `struct page_struct *array`. -/
def pageAddress (array : BitVec 64) (i : Nat) : BitVec 64 := array + BitVec.ofNat 64 (pageSize * i)

def memoryTimingStart : Code Int := do
  let array ← readVmemAligned
  Prog.forLoop 10 () fun i _ => do
    let _ ← access .vmemAligned .probe (pageAddress array i)
    let t ← access .vmemAligned .probe (pageAddress array i)
    prInfo (.pageCycles (BitVec.ofNat 32 i) (t.truncate 32))
  return 0

/-! ## `main.c` -/

/-- `_IOR(type, nr, size)`. -/
def ior (type nr size : Nat) : BitVec 32 :=
  BitVec.ofNat 32 (2 <<< 30 ||| size <<< 16 ||| type <<< 8 ||| nr)

/-- `TIMING_IOCTL_MAGIC` and the size of `timing_ioctl_struct`. -/
def timingIoctl (nr : Nat) : BitVec 32 := ior 0xEC2 nr 16

def timingIoctlNop : BitVec 32 := timingIoctl 0
def timingIoctlWall : BitVec 32 := timingIoctl 1
def timingIoctlThread : BitVec 32 := timingIoctl 2
def timingIoctlCache : BitVec 32 := timingIoctl 3
def timingIoctlMemory : BitVec 32 := timingIoctl 4
def timingIoctlWallFl : BitVec 32 := timingIoctl 5
def timingIoctlThreadFl : BitVec 32 := timingIoctl 6
def timingIoctlKmalloc : BitVec 32 := timingIoctl 7

def ePerm : Int := 1
def eFault : Int := 14
def eInval : Int := 22

/-- `KMALLOC_SIZE`. -/
def kmallocSize : Nat := 8 * 64

/-- `((uintptr_t) vmem + 15) & ~(uintptr_t) 0x0F`. -/
def alignVmem (vmem : BitVec 64) : BitVec 64 := (vmem + 15) &&& ~~~0x0F

/-- How a handler ends: with its return value, or by calling `nop_timing_start`. -/
inductive Return
  | value (r : Int)
  | nopTimingStart (action : Bool)
  deriving DecidableEq

/-- `!*vmem || !*vmem_aligned`. -/
def kmallocFailed : Code Bool := do
  let x ← access .vmem .word (← readVmem)
  if x = 0 then
    return true
  else
    let y ← access .vmemAligned .word (← readVmemAligned)
    return decide (y = 0)

/-- `TIMING_IOCTL_KMALLOC` after the allocation. -/
def kmallocVerify : Code Return := do
  if ← kmallocFailed then
    prAlert .allocationFailed
    return .value (-eFault)
  else
    let x ← access .vmem .word (← readVmem)
    let y ← access .vmemAligned .word (← readVmemAligned)
    prInfo (.memoryAllocated x y kmallocSize)
    return .value 0

/-- `vmem_aligned = ...`, given the value of `vmem`. -/
def kmallocPublish (v : BitVec 64) : Code Return := do
  writeVmemAligned (alignVmem v)
  kmallocVerify

/-- `vmem = ...`, given the result of `kmalloc`. -/
def kmallocStore (p : BitVec 64) : Code Return := do
  writeVmem p
  let v ← readVmem
  kmallocPublish v

/-- `TIMING_IOCTL_KMALLOC` once it has found `vmem` NULL. -/
def kmallocAllocate : Code Return := do
  let p ← kmalloc kmallocSize
  kmallocStore p

/-- The case of `TIMING_IOCTL_KMALLOC`. -/
def kmallocCommand : Code Return := do
  prInfo .allocatingMemory
  let v ← readVmem
  if v = 0 then kmallocAllocate else kmallocVerify

/-- The cases of `TIMING_IOCTL_CACHE` and `TIMING_IOCTL_MEMORY`. -/
def bufferCommand (commencing : Record) (start : Code Int) : Code Return := do
  prInfo commencing
  let v ← readVmem
  if v = 0 then
    prAlert .memoryNotAllocated
    return .value (-eFault)
  let r ← start
  return .value r

def timingUnlockedIoctl (cmd : BitVec 32) : Code Return := do
  prInfo (.commandReceived cmd)
  if cmd = timingIoctlNop then
    prInfo .finishedNop
    return .value 0
  else if cmd = timingIoctlWall then
    prInfo .commencingWall
    return .value (← wallTimingStart)
  else if cmd = timingIoctlThread then
    prInfo .commencingNop
    return .nopTimingStart true
  else if cmd = timingIoctlCache then
    bufferCommand .commencingCache cacheTimingStart
  else if cmd = timingIoctlMemory then
    bufferCommand .commencingMemory memoryTimingStart
  else if cmd = timingIoctlKmalloc then
    kmallocCommand
  else if cmd = timingIoctlWallFl then
    prInfo .commencingWallFl
    return .value (← bufferFlushStart)
  else if cmd = timingIoctlThreadFl then
    prInfo .commencingNopFl
    return .nopTimingStart false
  else
    return .value (-eInval)

def timingInitModule : Code Int := do
  prInfo .inserting
  let r ← miscRegister
  if r ≠ 0 then
    prAlert .miscRegisterFailed
    return -ePerm
  return 0

def timingCleanupModule : Code Unit := do
  kfree (← readVmem)
  miscDeregister
  prAlert .removing

end EcrToolkit
