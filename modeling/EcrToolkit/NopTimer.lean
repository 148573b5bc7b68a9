import EcrToolkit.Instructions
import EcrToolkit.Transitions
import Mathlib.Logic.Function.Basic

/-!
# `nop_timer.c` as a transition system

Any number of calls of `nop_timing_start`, each with the two kernel threads it
creates, over the six module globals.  Calls are named by a type `ι`; the NOP and
the INSTR thread of call `i` are named by `i` as well.  One step executes one
statement of one thread and touches at most one global, so a run of the system is
an interleaving of atomic, sequentially consistent accesses.

What the kernel decides is part of the action: whether a `kthread_create`
succeeds, how many CPUs are online, which features the boot CPU has, what
`vmem_aligned` holds when it is tested, and when a SIGKILL becomes pending.

The kernel's thread functions are modelled as they are documented.
`kthread_create` makes a thread that sleeps until it is woken; `kthread_stop`
sets `kthread_should_stop`, wakes the thread and waits until it has exited; a
thread that is stopped before it first ran exits without running its function.
A NULL or error pointer handed to one of them, or to `signal_pending`, is a fault.
-/
namespace EcrToolkit.NopTimer

/-- What `nop_th` and `instr_th` hold: nothing yet, the thread that call `i`
created, or the error pointer of a failed `kthread_create`. -/
inductive TaskPtr (ι : Type)
  | null
  | task (i : ι)
  | err (errno : Nat)
  deriving DecidableEq

/-- The module globals of `nop_timer.c`. -/
structure Globals (ι : Type) where
  nopTh : TaskPtr ι
  instrTh : TaskPtr ι
  count : BitVec 64
  resetCount : Bool
  printCount : Bool
  finish : Bool

/-- What one run of the module does that the outside can see, and the handshake
steps in between.  `header`, `zero`, `label` and `count` are the log records. -/
inductive Event (ι : Type)
  /-- A call of `nop_timing_start` begins. -/
  | begin (i : ι)
  /-- `pr_info("Aggregating ...\n")`. -/
  | header (i : ι) (action : Bool)
  /-- `pr_info("NOP_%s: 0\n")`. -/
  | zero (i : ι) (name : String)
  /-- A `NOP_TIMING_LOOP` begins: `reset_count = true`. -/
  | enter (i : ι) (name : String)
  /-- The NOP thread acknowledges the reset: `reset_count = false`. -/
  | ackReset (i : ι)
  /-- The `for` loop around `FUNCTION_CALL` begins, and ends. -/
  | callEnter (i : ι) (name : String)
  | callLeave (i : ι) (name : String)
  /-- `pr_info("NOP_%s: ")`. -/
  | label (i : ι) (name : String)
  /-- `print_count = true`. -/
  | printRequest (i : ι) (name : String)
  /-- The NOP thread reads `count` for its `pr_info`. -/
  | readCount (i : ι)
  /-- `pr_info("%lu\n", count)`. -/
  | count (i : ι) (n : Nat)
  /-- `print_count = false`. -/
  | ackPrint (i : ι)
  /-- The `NOP_TIMING_LOOP` ends. -/
  | leave (i : ι) (name : String)
  /-- The NOP thread executes its `nop`. -/
  | nop (i : ι)
  /-- `finish = true`. -/
  | finish (i : ι)
  /-- Call `i` passes the NOP (INSTR) thread of call `j` to `kthread_stop`. -/
  | stopNop (i j : ι)
  | stopInstr (i j : ι)
  /-- The call returns. -/
  | ret (i : ι)
  /-- Something that is no thread is passed to a thread function. -/
  | badPointer (i : ι)
  deriving DecidableEq

/-! ## The NOP thread -/

/-- The statement the NOP thread executes next. -/
inductive NopPc
  | notCreated
  | created
  | allowSignal
  | testStop
  | testSignal
  | testReset
  | clearCount
  | ackReset
  | testPrint
  | loadPrint
  | prInfo (n : BitVec 64)
  | ackPrint
  | nop
  | loadCount
  | storeCount (n : BitVec 64)
  | doExit
  | exited
  | faulted
  deriving DecidableEq

/-- The NOP thread of one call. -/
structure NopThread where
  pc : NopPc
  awake : Bool
  shouldStop : Bool
  sigPending : Bool
  deriving DecidableEq

/-- No thread yet. -/
def NopThread.absent : NopThread := ⟨.notCreated, false, false, false⟩

/-- The thread `kthread_create` makes. -/
def NopThread.fresh : NopThread := ⟨.created, false, false, false⟩

variable {ι : Type}

/-- One statement of `nop_f` in the thread of call `i`.  `pending` is what
`signal_pending(nop_th)` answers, `none` when `nop_th` is no thread. -/
def nopF (i : ι) (g : Globals ι) (pending : Option Bool) (t : NopThread) :
    Option (List (Event ι) × Globals ι × NopThread) :=
  if t.awake then
    match t.pc with
    | .notCreated => none
    | .created => some ([], g, { t with pc := if t.shouldStop then .exited else .allowSignal })
    | .allowSignal => some ([], g, { t with pc := .testStop })
    | .testStop => some ([], g, { t with pc := if t.shouldStop then .doExit else .testSignal })
    | .testSignal =>
      match pending with
      | none => some ([.badPointer i], g, { t with pc := .faulted })
      | some true => some ([], g, { t with pc := .doExit })
      | some false => some ([], g, { t with pc := .testReset })
    | .testReset => some ([], g, { t with pc := if g.resetCount then .clearCount else .testPrint })
    | .clearCount => some ([], { g with count := 0 }, { t with pc := .ackReset })
    | .ackReset =>
      some ([.ackReset i], { g with resetCount := false }, { t with pc := .testPrint })
    | .testPrint => some ([], g, { t with pc := if g.printCount then .loadPrint else .nop })
    | .loadPrint => some ([.readCount i], g, { t with pc := .prInfo g.count })
    | .prInfo n => some ([.count i n.toNat], g, { t with pc := .ackPrint })
    | .ackPrint => some ([.ackPrint i], { g with printCount := false }, { t with pc := .nop })
    | .nop => some ([.nop i], g, { t with pc := .loadCount })
    | .loadCount => some ([], g, { t with pc := .storeCount g.count })
    | .storeCount n => some ([], { g with count := n + 1 }, { t with pc := .testStop })
    | .doExit => some ([], g, { t with pc := .exited })
    | .exited => none
    | .faulted => none
  else none

/-! ## The INSTR thread -/

/-- Where the INSTR thread is inside one timing macro. -/
inductive LoopPc
  | irqSave
  | irqDisable
  | bootCpuHas (f : Feature)
  | testVmemAligned
  | testOnline
  | zero
  | setReset
  | spinReset
  | spinResetStop
  /-- The `for` loop, with the calls still to make. -/
  | forCall (left : Nat)
  | label
  | setPrint
  | spinPrint
  | spinPrintStop
  | irqRestore
  | irqEnable
  deriving DecidableEq

/-- The statement the INSTR thread executes next; inside the table, the loop it
is in and the loops still to come. -/
inductive InstrPc
  | notCreated
  | created
  | allowSignal
  | aggregating
  | atLoop (l : TimingLoop) (p : LoopPc) (rest : List TimingLoop)
  | setFinish
  | doExit
  | exited
  deriving DecidableEq

/-- The INSTR thread of one call: `action` says which of the two functions it
runs, `irqs` whether interrupts are enabled on its CPU. -/
structure InstrThread where
  pc : InstrPc
  action : Bool
  awake : Bool
  shouldStop : Bool
  irqs : Bool
  flags : Bool

/-- No thread yet. -/
def InstrThread.absent : InstrThread := ⟨.notCreated, false, false, false, true, false⟩

/-- The thread `kthread_create` makes to run `instr_f` (`action`) or
`buffer_flush_instr_f`. -/
def InstrThread.fresh (action : Bool) : InstrThread :=
  ⟨.created, action, false, false, true, false⟩

/-- The timing loops of `instr_f` and of `buffer_flush_instr_f`. -/
def nopLoops (action : Bool) : List TimingLoop := if action then standardLoops else flushLoops

/-- The first statement of a timing macro. -/
def entry (l : TimingLoop) : LoopPc :=
  match l.guard with
  | .plain => .testOnline
  | .suspendInterrupts => .irqSave
  | .bootFeature f => .bootCpuHas f
  | .kmalloc => .testVmemAligned

/-- Go on with the loops that are left. -/
def nextLoop : List TimingLoop → InstrPc
  | [] => .setFinish
  | l :: rest => .atLoop l (entry l) rest

/-- Leave the body of a timing macro. -/
def afterBody (l : TimingLoop) (rest : List TimingLoop) : InstrPc :=
  if l.guard = .suspendInterrupts then .atLoop l .irqRestore rest else nextLoop rest

/-- What the INSTR thread asks the kernel, and the value of `main.c`'s
`vmem_aligned`. -/
structure Env where
  numOnlineCpus : Nat
  bootCpuHas : Feature → Bool
  vmemAligned : BitVec 64

/-- One statement of a timing macro. -/
def nopTimingLoop (i : ι) (g : Globals ι) (env : Env) (t : InstrThread) (l : TimingLoop)
    (p : LoopPc) (rest : List TimingLoop) : List (Event ι) × Globals ι × InstrThread :=
  let at_ (p : LoopPc) : InstrThread := { t with pc := .atLoop l p rest }
  match p with
  | .irqSave => ([], g, { at_ .irqDisable with flags := t.irqs, irqs := false })
  | .irqDisable => ([], g, { at_ .testOnline with irqs := false })
  | .bootCpuHas f =>
    ([], g, if env.bootCpuHas f then at_ .testOnline else { t with pc := nextLoop rest })
  | .testVmemAligned => ([], g, at_ (if env.vmemAligned ≠ 0 then .testOnline else .zero))
  | .testOnline => ([], g, at_ (if 2 ≤ env.numOnlineCpus then .setReset else .zero))
  | .zero => ([.zero i l.printName], g, { t with pc := afterBody l rest })
  | .setReset => ([.enter i l.printName], { g with resetCount := true }, at_ .spinReset)
  | .spinReset =>
    if g.resetCount then ([], g, at_ .spinResetStop)
    else ([.callEnter i l.printName], g, at_ (.forCall l.loopIterations))
  | .spinResetStop =>
    if t.shouldStop then ([.callEnter i l.printName], g, at_ (.forCall l.loopIterations))
    else ([], g, at_ .spinReset)
  | .forCall (left + 1) => ([], g, at_ (.forCall left))
  | .forCall 0 => ([.callLeave i l.printName], g, at_ .label)
  | .label => ([.label i l.printName], g, at_ .setPrint)
  | .setPrint => ([.printRequest i l.printName], { g with printCount := true }, at_ .spinPrint)
  | .spinPrint =>
    if g.printCount then ([], g, at_ .spinPrintStop)
    else ([.leave i l.printName], g, { t with pc := afterBody l rest })
  | .spinPrintStop =>
    if t.shouldStop then ([.leave i l.printName], g, { t with pc := afterBody l rest })
    else ([], g, at_ .spinPrint)
  | .irqRestore => ([], g, { at_ .irqEnable with irqs := t.flags })
  | .irqEnable => ([], g, { t with pc := nextLoop rest, irqs := true })

/-- One statement of `instr_f` or `buffer_flush_instr_f` in the thread of call `i`. -/
def instrF (i : ι) (g : Globals ι) (env : Env) (t : InstrThread) :
    Option (List (Event ι) × Globals ι × InstrThread) :=
  if t.awake then
    match t.pc with
    | .notCreated => none
    | .created => some ([], g, { t with pc := if t.shouldStop then .exited else .allowSignal })
    | .allowSignal => some ([], g, { t with pc := .aggregating })
    | .aggregating =>
      some ([.header i t.action], g, { t with pc := nextLoop (nopLoops t.action) })
    | .atLoop l p rest => some (nopTimingLoop i g env t l p rest)
    | .setFinish => some ([.finish i], { g with finish := true }, { t with pc := .doExit })
    | .doExit => some ([], g, { t with pc := .exited })
    | .exited => none
  else none

/-! ## The caller -/

/-- The statement of `nop_timing_start` a call executes next.  `joinNop j` and
`joinInstr j` are inside `kthread_stop`, waiting for the thread of call `j`. -/
inductive CallPc (ι : Type)
  | notCalled
  | clearReset
  | clearPrint
  | clearFinish
  | createNop
  | createInstr
  | testNop
  | testInstr
  | bindNop
  | bindInstr
  | wakeNop
  | wakeInstr
  | poll
  | sleep
  | stopNop
  | joinNop (j : ι)
  | stopInstr
  | joinInstr (j : ι)
  | returned
  | faulted
  deriving DecidableEq

/-- One call of `nop_timing_start(action)`. -/
structure Call (ι : Type) where
  pc : CallPc ι
  action : Bool

/-- The globals, every call and every thread. -/
structure State (ι : Type) where
  globals : Globals ι
  call : ι → Call ι
  nop : ι → NopThread
  instr : ι → InstrThread

/-- The state after module load: C's zero-initialised globals, no call yet. -/
def initial : State ι where
  globals := ⟨.null, .null, 0, false, false, false⟩
  call _ := ⟨.notCalled, false⟩
  nop _ := .absent
  instr _ := .absent

/-- `signal_pending(p)`. -/
def State.signalPending (s : State ι) : TaskPtr ι → Option Bool
  | .task j => some (s.nop j).sigPending
  | _ => none

variable [DecidableEq ι]

/-- Call `i` goes on at `pc`. -/
def State.goto (s : State ι) (i : ι) (pc : CallPc ι) : State ι :=
  { s with call := Function.update s.call i { s.call i with pc := pc } }

/-- `s` with the NOP thread of call `j` replaced. -/
def State.setNop (s : State ι) (j : ι) (t : NopThread) : State ι :=
  { s with nop := Function.update s.nop j t }

/-- `s` with the INSTR thread of call `j` replaced. -/
def State.setInstr (s : State ι) (j : ι) (t : InstrThread) : State ι :=
  { s with instr := Function.update s.instr j t }

/-- `s` with the globals replaced. -/
def State.setGlobals (s : State ι) (g : Globals ι) : State ι := { s with globals := g }

/-- One statement of `nop_timing_start` in call `i`; `err` is the error a
`kthread_create` returns, `none` when it succeeds. -/
def nopTimingStart (s : State ι) (i : ι) (err : Option Nat) :
    Option (List (Event ι) × State ι) :=
  let g := s.globals
  match (s.call i).pc with
  | .notCalled => none
  | .clearReset => some ([], (s.setGlobals { g with resetCount := false }).goto i .clearPrint)
  | .clearPrint => some ([], (s.setGlobals { g with printCount := false }).goto i .clearFinish)
  | .clearFinish => some ([], (s.setGlobals { g with finish := false }).goto i .createNop)
  | .createNop =>
    match err with
    | none =>
      some ([], ((s.setNop i .fresh).setGlobals { g with nopTh := .task i }).goto i .createInstr)
    | some e => some ([], (s.setGlobals { g with nopTh := .err e }).goto i .createInstr)
  | .createInstr =>
    match err with
    | none =>
      some ([], ((s.setInstr i (.fresh (s.call i).action)).setGlobals
        { g with instrTh := .task i }).goto i .testNop)
    | some e => some ([], (s.setGlobals { g with instrTh := .err e }).goto i .testNop)
  | .testNop => some ([], s.goto i (if g.nopTh = .null then .poll else .testInstr))
  | .testInstr => some ([], s.goto i (if g.instrTh = .null then .poll else .bindNop))
  | .bindNop =>
    match g.nopTh with
    | .task _ => some ([], s.goto i .bindInstr)
    | _ => some ([.badPointer i], s.goto i .faulted)
  | .bindInstr =>
    match g.instrTh with
    | .task _ => some ([], s.goto i .wakeNop)
    | _ => some ([.badPointer i], s.goto i .faulted)
  | .wakeNop =>
    match g.nopTh with
    | .task j => some ([], (s.setNop j { s.nop j with awake := true }).goto i .wakeInstr)
    | _ => some ([.badPointer i], s.goto i .faulted)
  | .wakeInstr =>
    match g.instrTh with
    | .task j => some ([], (s.setInstr j { s.instr j with awake := true }).goto i .poll)
    | _ => some ([.badPointer i], s.goto i .faulted)
  | .poll => some ([], s.goto i (if g.finish then .stopNop else .sleep))
  | .sleep => some ([], s.goto i .poll)
  | .stopNop =>
    match g.nopTh with
    | .task j =>
      some ([.stopNop i j],
        (s.setNop j { s.nop j with shouldStop := true, awake := true }).goto i (.joinNop j))
    | _ => some ([.badPointer i], s.goto i .faulted)
  | .joinNop j => if (s.nop j).pc = .exited then some ([], s.goto i .stopInstr) else none
  | .stopInstr =>
    match g.instrTh with
    | .task j =>
      some ([.stopInstr i j],
        (s.setInstr j { s.instr j with shouldStop := true, awake := true }).goto i (.joinInstr j))
    | _ => some ([.badPointer i], s.goto i .faulted)
  | .joinInstr j =>
    if (s.instr j).pc = .exited then some ([.ret i], s.goto i .returned) else none
  | .returned => none
  | .faulted => none

/-! ## The system -/

/-- What the scheduler can pick. -/
inductive Action (ι : Type)
  /-- Call `i`, `nop_timing_start(action)`, executes its first statement. -/
  | begin (i : ι) (action : Bool)
  /-- Call `i` executes its next statement. -/
  | call (i : ι) (err : Option Nat)
  /-- The NOP thread of call `i` executes its next statement. -/
  | nop (i : ι)
  /-- The INSTR thread of call `i` executes its next statement. -/
  | instr (i : ι) (env : Env)
  /-- A SIGKILL becomes pending for the NOP thread of call `i`. -/
  | sigkill (i : ι)

/-- One atomic step of the module. -/
def step (s : State ι) : Action ι → Option (List (Event ι) × State ι)
  | .begin i action =>
    if (s.call i).pc = .notCalled then
      some ([.begin i],
        { s with
          globals := { s.globals with count := 0 }
          call := Function.update s.call i ⟨.clearReset, action⟩ })
    else none
  | .call i err => nopTimingStart s i err
  | .nop i =>
    (nopF i s.globals (s.signalPending s.globals.nopTh) (s.nop i)).map fun r =>
      (r.1, (s.setNop i r.2.2).setGlobals r.2.1)
  | .instr i env =>
    (instrF i s.globals env (s.instr i)).map fun r =>
      (r.1, (s.setInstr i r.2.2).setGlobals r.2.1)
  | .sigkill i => some ([], s.setNop i { s.nop i with sigPending := true })

/-- **The NOP timer**: all calls, all their threads, every interleaving. -/
def system : Transitions.System (State ι) (Action ι) (Event ι) := ⟨step⟩

end EcrToolkit.NopTimer
