import EcrToolkit.Handlers
import EcrToolkit.NopTimer

/-!
# The module and its clients as one transition system

Clients of type `ι` open `/dev/ECR` and issue ioctls; the handler of each is a
program of `Handlers`, and one step of the system performs one operation of one
of them.  `timing_unlocked_ioctl` takes no lock, so the operations of different
clients interleave freely.  A handler that calls `nop_timing_start` waits for a
call of the NOP timer, whose threads are part of the same state; calls are named
by a type `κ`.  `insmod` runs `timing_init_module` and `rmmod` runs
`timing_cleanup_module`, one operation at a time as well.

What the kernel promises is modelled as follows.  A client can open the device
while it is registered.  An ioctl can be issued on a descriptor at any time.  The
module can be unloaded while descriptors are open, since `fops` does not set
`.owner`.  An access of NULL faults, and the environment says of any other
address whether it is mapped; a fault kills the thread that caused it.
-/
namespace EcrToolkit.Device

open AtomicProgram

/-! ## Memory -/

/-- The globals of `main.c`, and what became of the memory and the device they
are about. -/
structure Memory where
  vmem : BitVec 64
  vmemAligned : BitVec 64
  /-- The blocks obtained from `kmalloc`, latest first. -/
  allocated : List (BitVec 64)
  /-- The arguments `kfree` was called with, latest first. -/
  freed : List (BitVec 64)
  /-- `misc_register` has succeeded, and `misc_deregister` was not called yet. -/
  registered : Bool
  deriving DecidableEq

/-- The globals of a module that was just loaded. -/
def Memory.zero : Memory := ⟨0, 0, [], [], false⟩

/-- What the environment answers when it is asked. -/
structure Env where
  kmalloc : BitVec 64
  mapped : Bool
  loaded : BitVec 64
  cycles : BitVec 32
  now : Timespec
  bootCpuHas : Feature → Bool
  cpuidVmx : Bool
  irqs : Bool
  miscRegister : Int

/-- What an access answers: the word read, or the cycles the probe took. -/
def Env.answer (env : Env) : Access → BitVec 64
  | .word => env.loaded
  | .probe => env.cycles.zeroExtend 64
  | _ => 0

/-- The block `kmalloc` returned is ours, unless it returned NULL. -/
def Memory.obtain (m : Memory) (p : BitVec 64) : Memory :=
  if p = 0 then m else { m with allocated := p :: m.allocated }

/-- Perform one operation; `none` is a fault. -/
def perform (env : Env) (m : Memory) : (o : Op) → Option (o.Res × Memory)
  | .readVmem => some (m.vmem, m)
  | .writeVmem p => some ((), { m with vmem := p })
  | .readVmemAligned => some (m.vmemAligned, m)
  | .writeVmemAligned p => some ((), { m with vmemAligned := p })
  | .kmalloc _ => some (env.kmalloc, m.obtain env.kmalloc)
  | .kfree p => some ((), { m with freed := p :: m.freed })
  | .access _ a p => if p ≠ 0 ∧ env.mapped then some (env.answer a, m) else none
  | .getnstimeofday => some (env.now, m)
  | .bootCpuHas f => some (env.bootCpuHas f, m)
  | .cpuidVmx => some (env.cpuidVmx, m)
  | .localIrqSave => some (env.irqs, m)
  | .miscRegister => some (env.miscRegister, { m with registered := env.miscRegister == 0 })
  | .miscDeregister => some ((), { m with registered := false })
  | .prInfo _ => some ((), m)
  | .prAlert _ => some ((), m)
  | .execute _ => some ((), m)
  | .msleep => some ((), m)
  | .localIrqDisable => some ((), m)
  | .localIrqRestore _ => some ((), m)
  | .localIrqEnable => some ((), m)

/-! ## The state -/

/-- A client of the device. -/
inductive Client (κ : Type)
  | closed
  | opened
  /-- In `timing_unlocked_ioctl(cmd)`, with `p` still to run. -/
  | running (cmd : BitVec 32) (p : Code Return)
  /-- In `timing_unlocked_ioctl(cmd)`, inside call `j` of `nop_timing_start`. -/
  | waiting (cmd : BitVec 32) (j : κ)
  | faulted

/-- The client is inside an ioctl. -/
def Client.busy {κ : Type} : Client κ → Bool
  | .running _ _ | .waiting _ _ => true
  | _ => false

/-- The life of the module. -/
inductive Module
  | inserting (p : Code Int)
  | loaded
  | failed
  | removing (p : Code Unit)
  | removed

/-- The module, its clients and its threads. -/
structure State (ι κ : Type) where
  memory : Memory
  client : ι → Client κ
  nop : NopTimer.State κ
  module : Module

/-- `insmod` begins. -/
def initial {ι κ : Type} : State ι κ :=
  ⟨.zero, fun _ => .closed, NopTimer.initial, .inserting timingInitModule⟩

/-- What a step does that others can see. -/
inductive Event (ι κ : Type)
  | openDev (c : ι)
  | ioctl (c : ι) (cmd : BitVec 32)
  /-- A handler performs an operation. -/
  | op (c : ι) (o : Op)
  | fault (c : ι)
  | ret (c : ι) (r : Int)
  | closeDev (c : ι)
  | nop (e : NopTimer.Event κ)
  /-- The INSTR thread of call `j` accesses memory through `vmem_aligned`. -/
  | instrAccess (j : κ) (a : Access) (p : BitVec 64)
  | instrFault (j : κ)
  /-- `timing_init_module` or `timing_cleanup_module` performs an operation. -/
  | module (o : Op)
  deriving DecidableEq

variable {ι κ : Type}

/-! ## Steps -/

section Steps
variable [DecidableEq ι] [DecidableEq κ]

/-- Client `c` goes on as `x`. -/
def State.setClient (s : State ι κ) (c : ι) (x : Client κ) : State ι κ :=
  { s with client := Function.update s.client c x }

/-- The handler of client `c` performs its next operation, or returns. -/
def handlerStep (s : State ι κ) (c : ι) (env : Env) : Option (List (Event ι κ) × State ι κ) :=
  match s.client c with
  | .running cmd (.op o k) =>
    match perform env s.memory o with
    | some r => some ([.op c o], { s.setClient c (.running cmd (k r.1)) with memory := r.2 })
    | none => some ([.op c o, .fault c], s.setClient c .faulted)
  | .running _ (.ret (.value r)) => some ([.ret c r], s.setClient c .opened)
  | _ => none

/-- The handler of client `c` calls `nop_timing_start`; its call is named `j`. -/
def enterNop (s : State ι κ) (c : ι) (j : κ) : Option (List (Event ι κ) × State ι κ) :=
  match s.client c with
  | .running cmd (.ret (.nopTimingStart action)) =>
    (NopTimer.step s.nop (.begin j action)).map fun r =>
      (r.1.map .nop, { s.setClient c (.waiting cmd j) with nop := r.2 })
  | _ => none

/-- The call of `nop_timing_start` client `c` waits for is over. -/
def leaveNop (s : State ι κ) (c : ι) : Option (List (Event ι κ) × State ι κ) :=
  match s.client c with
  | .waiting _ j =>
    match (s.nop.call j).pc with
    | .returned => some ([.ret c 0], s.setClient c .opened)
    | .faulted => some ([.fault c], s.setClient c .faulted)
    | _ => none
  | _ => none

end Steps

/-- How a function of `instructions.c` accesses the memory `vmem_aligned` points to. -/
def instrAccess : InstrF → Option Access
  | .movntdqa => some .movntdqa
  | .movntdq => some .movntdq
  | .clflush => some .clflush
  | _ => none

/-- The memory access the next statement of an INSTR thread makes. -/
def nextAccess (t : NopTimer.InstrThread) : Option Access :=
  match t.pc with
  | .atLoop l (.forCall (_ + 1)) _ => instrAccess l.functionCall
  | _ => none

section Steps
variable [DecidableEq ι] [DecidableEq κ]

/-- A step of the INSTR thread of call `j`.  A call of `movntdqa_f` and its like is
one step, which reads `vmem_aligned` and accesses the memory there; a thread that
faults is gone. -/
def instrStep (s : State ι κ) (j : κ) (env : NopTimer.Env) (mapped : Bool) :
    Option (List (Event ι κ) × State ι κ) :=
  let a := s.memory.vmemAligned
  let env : NopTimer.Env := { env with vmemAligned := a }
  (NopTimer.step s.nop (.instr j env)).map fun r =>
    match nextAccess (s.nop.instr j) with
    | none => (r.1.map .nop, { s with nop := r.2 })
    | some acc =>
      if a ≠ 0 ∧ mapped then (.instrAccess j acc a :: r.1.map .nop, { s with nop := r.2 })
      else ([.instrAccess j acc a, .instrFault j],
        { s with nop := s.nop.setInstr j { s.nop.instr j with pc := .exited } })

/-- A step inside the NOP timer. -/
def nopStep (s : State ι κ) (mapped : Bool) :
    NopTimer.Action κ → Option (List (Event ι κ) × State ι κ)
  | .begin _ _ => none
  | .instr j env => instrStep s j env mapped
  | a => (NopTimer.step s.nop a).map fun r => (r.1.map .nop, { s with nop := r.2 })

/-- `insmod` and `rmmod` perform their next operation, or end. -/
def moduleStep (s : State ι κ) (env : Env) : Option (List (Event ι κ) × State ι κ) :=
  match s.module with
  | .inserting (.op o k) =>
    (perform env s.memory o).map fun r =>
      ([.module o], { s with memory := r.2, module := .inserting (k r.1) })
  | .inserting (.ret r) => some ([], { s with module := if r = 0 then .loaded else .failed })
  | .removing (.op o k) =>
    (perform env s.memory o).map fun r =>
      ([.module o], { s with memory := r.2, module := .removing (k r.1) })
  | .removing (.ret ()) => some ([], { s with module := .removed })
  | _ => none

/-- What the scheduler can pick. -/
inductive Action (ι κ : Type)
  | openDev (c : ι)
  | ioctl (c : ι) (cmd : BitVec 32)
  | handler (c : ι) (env : Env)
  | enterNop (c : ι) (j : κ)
  | leaveNop (c : ι)
  | closeDev (c : ι)
  | nop (a : NopTimer.Action κ) (mapped : Bool)
  | unload
  | module (env : Env)

/-- One atomic step. -/
def step (s : State ι κ) : Action ι κ → Option (List (Event ι κ) × State ι κ)
  | .openDev c =>
    match s.client c with
    | .closed => if s.memory.registered then some ([.openDev c], s.setClient c .opened) else none
    | _ => none
  | .ioctl c cmd =>
    match s.client c with
    | .opened => some ([.ioctl c cmd], s.setClient c (.running cmd (timingUnlockedIoctl cmd)))
    | _ => none
  | .handler c env => handlerStep s c env
  | .enterNop c j => enterNop s c j
  | .leaveNop c => leaveNop s c
  | .closeDev c =>
    match s.client c with
    | .opened => some ([.closeDev c], s.setClient c .closed)
    | _ => none
  | .nop a mapped => nopStep s mapped a
  | .unload =>
    match s.module with
    | .loaded => some ([], { s with module := .removing timingCleanupModule })
    | _ => none
  | .module env => moduleStep s env

/-- **The device**: every client, every thread, every interleaving. -/
def system : Transitions.System (State ι κ) (Action ι κ) (Event ι κ) := ⟨step⟩

end Steps

end EcrToolkit.Device
