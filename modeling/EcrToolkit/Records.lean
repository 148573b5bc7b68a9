import EcrToolkit.Instructions

/-!
# The records of the kernel log

Every `pr_info` and `pr_alert` of the module, with the values it prints, and the
text `printk` makes of it.  The text of a record is its line of the log without
the newline.
-/
namespace EcrToolkit

/-- `struct timespec`. -/
structure Timespec where
  sec : Int
  nsec : Int
  deriving DecidableEq

/-- The kernel's `timespec_sub`: the difference, with `tv_nsec` in `[0, 10^9)`. -/
def timespecSub (lhs rhs : Timespec) : Timespec :=
  let ns := (lhs.sec - rhs.sec) * 1000000000 + (lhs.nsec - rhs.nsec)
  ⟨ns / 1000000000, ns % 1000000000⟩

/-- What the module logs. -/
inductive Record
  /-- `timing_init_module` and `timing_cleanup_module`. -/
  | inserting
  | miscRegisterFailed
  | removing
  /-- `timing_open` and `timing_release`. -/
  | openSucceeded
  | releaseSucceeded
  /-- `timing_unlocked_ioctl`. -/
  | commandReceived (cmd : BitVec 32)
  | finishedNop
  | commencingWall
  | commencingNop
  | commencingCache
  | commencingMemory
  | allocatingMemory
  | commencingWallFl
  | commencingNopFl
  | memoryNotAllocated
  | allocationFailed
  | memoryAllocated (vmem vmemAligned : BitVec 64) (size : Nat)
  /-- `cache_timing_handler` and `memory_timing_start`. -/
  | averageCycles (address : BitVec 64) (offset : BitVec 32) (avg : BitVec 32)
  | pageCycles (i : BitVec 32) (t : BitVec 32)
  /-- `cpuid_test_support_f`. -/
  | vmxSupported
  | vmxNotSupported
  /-- `wall_timing_start` and `buffer_flush_start`. -/
  | aggregatingWall
  | aggregatingWallFl
  | wall (name : String) (nsec : Nat)
  | wallZero (name : String)
  /-- `instr_f`, `buffer_flush_instr_f` and `nop_f`. -/
  | aggregatingNop
  | aggregatingNopFl
  | nopLabel (name : String)
  | nopZero (name : String)
  | count (n : Nat)
  deriving DecidableEq

/-- `%x`. -/
def hex (n : Nat) : String := String.ofList (Nat.toDigits 16 n)

/-- `%p`: the pointer value in sixteen digits. -/
def hexPointer (p : BitVec 64) : String :=
  let digits := Nat.toDigits 16 p.toNat
  String.ofList (List.replicate (16 - digits.length) '0' ++ digits)

/-- The text of a record. -/
def Record.text : Record → String
  | .inserting => "Inserting ECR kernel object"
  | .miscRegisterFailed => "misc_register failed"
  | .removing => "Removing ECR kernel object"
  | .openSucceeded => "IOCTL open succeeded"
  | .releaseSucceeded => "IOCTL release succeeded"
  | .commandReceived cmd => "Command received (cmd): 0x" ++ hex cmd.toNat
  | .finishedNop => "Finished without doing anything (NOP requested)"
  | .commencingWall => "Commencing wall timing measurements..."
  | .commencingNop => "Commencing NOP timing measurements..."
  | .commencingCache => "Commencing cache timing measurements..."
  | .commencingMemory => "Commencing memory timing measurements..."
  | .allocatingMemory => "Allocating memory (kmalloc())"
  | .commencingWallFl => "Commencing buffer flush wall timing measurements..."
  | .commencingNopFl => "Commencing buffer flush NOP timing measurements..."
  | .memoryNotAllocated => "Kernel memory not allocated!"
  | .allocationFailed => "Kernel memory allocation failed!"
  | .memoryAllocated vmem vmemAligned size =>
    "Memory allocated at virtual address 0x" ++ hexPointer vmem ++ " (aligned at 0x" ++
      hexPointer vmemAligned ++ ") with a buffer size of " ++ Nat.repr size ++ " bytes"
  | .averageCycles address offset avg =>
    "Average clock cycles at address 0x" ++ hex address.toNat ++ " (offset: 0x" ++
      hex offset.toNat ++ "): " ++ Int.repr avg.toInt
  | .pageCycles i t => "Cycles to access page " ++ Int.repr i.toInt ++ ": " ++ Int.repr t.toInt
  | .vmxSupported => "VMX supported CPU"
  | .vmxNotSupported => "VMX not supported by CPU"
  | .aggregatingWall => "Aggregating wall clock timing"
  | .aggregatingWallFl => "Aggregating buffer flush wall clock timing"
  | .wall name nsec => "WALL_" ++ name ++ ": " ++ Nat.repr nsec
  | .wallZero name => "WALL_" ++ name ++ ": 0"
  | .aggregatingNop => "Aggregating NOP based timings"
  | .aggregatingNopFl => "Aggregating buffer flush NOP based timing"
  | .nopLabel name => "NOP_" ++ name ++ ": "
  | .nopZero name => "NOP_" ++ name ++ ": 0"
  | .count n => Nat.repr n

end EcrToolkit
