import EcrToolkit.AllocationLog
import EcrToolkit.CommandLine
import EcrToolkit.ExitFlag
import EcrToolkit.Transitions
import Mathlib.Logic.Function.Basic

/-!
# Runs of `ecr.sh`

The script as a program over its commands, from the first line to the end
(`main`), and the two trap handlers (`ctrlC`, `finish`).  A `System` runs any number of
them at the same time against one kernel: each run can be at any command, and be
interrupted at any.

What the script prints, and how it computes it, is left out; so is what a command
changes that no other command depends on.
-/
namespace EcrToolkit.EcrSh

open AtomicProgram TextTools Transitions

/-! ## Commands -/

/-- A command of the script. -/
inductive Command
  | idU
  | trapInt (arg : Option Line)
  | trapExit (arg : Option Line)
  | insmod (arg : Option Line)
  | rmmod (arg : Option Line)
  | modIoctl (n : Nat)
  | dmesg
  | read
  deriving DecidableEq

/-- What a command answers: the user, whether the module was inserted, the log. -/
@[reducible] def Command.Res : Command → Type
  | .idU => Nat
  | .insmod _ => Bool
  | .dmesg => List Line
  | _ => Unit

abbrev Shell := Prog Command Command.Res

def idU : Shell Nat := .op .idU .ret
def trapInt (arg : Option Line) : Shell Unit := .op (.trapInt arg) .ret
def trapExit (arg : Option Line) : Shell Unit := .op (.trapExit arg) .ret
def insmod (arg : Option Line) : Shell Bool := .op (.insmod arg) .ret
def rmmod (arg : Option Line) : Shell Unit := .op (.rmmod arg) .ret
def modIoctl (n : Nat) : Shell Unit := .op (.modIoctl n) .ret
def dmesg : Shell (List Line) := .op .dmesg .ret
def read : Shell Unit := .op .read .ret

/-- The exit status of `insmod`. -/
def insmodStatus (inserted : Bool) : Nat := if inserted then 0 else 1

/-! ## The script -/

/-- `wall_parse`, `nop_parse`, `cache_parse` or `memory_parse`: the log is read twice. -/
def parse : Shell Unit := do
  let _ ← dmesg
  let _ ← dmesg

/-- `address_offsets`. -/
def addressOffsets : List String := ["0x0", "0x40", "0x80", "0x100", "0x1000"]

/-- The cache timing, up to `rmmod`. -/
def cacheMeasurement : Shell Unit := do
  modIoctl 3
  Prog.forEach addressOffsets fun _ => parse

/-- The memory timing, up to `rmmod`. -/
def memoryMeasurement : Shell Unit := do
  modIoctl 4
  Prog.forLoop 10 () fun _ _ => parse

/-- The instruction timing, up to `rmmod`. -/
def timingMeasurement (flush : Bool) : Shell Unit :=
  let ioctlOption1 := if flush then 5 else 1
  let ioctlOption2 := if flush then 6 else 2
  Prog.forLoop 15 () fun _ _ => do
    modIoctl ioctlOption1
    Prog.forEach (instructionArray flush) fun _ => parse
    modIoctl ioctlOption2
    Prog.forEach (instructionArray flush) fun _ => parse

def measurement (o : Options) : Shell Unit :=
  if o.cache then cacheMeasurement
  else if o.memory then memoryMeasurement
  else timingMeasurement o.flush

/-- From the measurements to the end of the script, with `$1`. -/
def measure (o : Options) (arg : Option Line) : Shell Nat := do
  measurement o
  rmmod arg
  return 0

/-- `Allocate memory, if necessary`, and the rest. -/
def allocate (o : Options) (arg : Option Line) : Shell Nat :=
  if o.kmalloc then do
    modIoctl 7
    match allocationStep (← dmesg) with
    | none => return 1
    | some _ => do
      read
      measure o arg
  else measure o arg

/-- `insmod`, and the rest. -/
def insert (o : Options) (arg : Option Line) : Shell Nat := do
  let inserted ← insmod arg
  if insmodStatus inserted = 1 then return 1 else allocate o arg

/-- The command line, and the rest. -/
def parameters (enhanced : Bool) (args : List Line) : Shell Nat :=
  match parseArguments enhanced args with
  | .refused => return 2
  | .help => return 0
  | .run o ps => insert o ps.head?

/-- `ecr.sh`, with the words of its command line.  The traps are set for the first of
them. -/
def main (enhanced : Bool) (args : List Line) : Shell Nat := do
  if (← idU) ≠ 0 then
    return 1
  else
    trapInt args.head?
    trapExit args.head?
    parameters enhanced args

/-- The first word of a command line. -/
def firstWord (args : List Word) : Option Line := (args.map (·.chars)).head?

/-- The operand of a command line. -/
def operandOf (enhanced : Bool) (args : List Word) : Option Line :=
  (parseArguments enhanced (args.map (·.chars))).operand

/-- What both handlers do. -/
def removeAndExit (arg : Option Line) : Shell Nat := do
  rmmod arg
  return 0

/-- `ctrl_c`. -/
def ctrlC (arg : Option Line) : Shell Nat := removeAndExit arg

/-- `finish`. -/
def finish (arg : Option Line) : Shell Nat := removeAndExit arg

/-! ## A run -/

/-- What a run is doing: commands of the script, commands of a handler, or nothing. -/
inductive Activity
  | running (inHandler : Bool) (p : Shell Nat)
  | exited

def Activity.isExited : Activity → Bool
  | .exited => true
  | .running _ _ => false

/-- A run of the script, with the arguments of its `INT` and its `EXIT` handler where
they are set. -/
structure Process where
  onInt : Option (Option Line)
  onExit : Option (Option Line)
  activity : Activity

/-- A run that begins. -/
def Process.start (enhanced : Bool) (args : List Word) : Process where
  onInt := none
  onExit := none
  activity := .running false (main enhanced (args.map (·.chars)))

/-- The shell exits; before that the `EXIT` handler runs, once. -/
def Process.leave (p : Process) : Process :=
  match p.onExit with
  | some arg => { p with onExit := none, activity := .running true (finish arg) }
  | none => { p with activity := .exited }

/-- Ctrl-C. -/
def Process.interrupt (p : Process) : Process :=
  match p.onInt with
  | some arg => { p with activity := .running true (ctrlC arg) }
  | none => p.leave

theorem Process.leave_onInt (p : Process) : p.leave.onInt = p.onInt := by
  unfold Process.leave
  split
  · rfl
  · rfl

theorem Process.interrupt_onInt (p : Process) : p.interrupt.onInt = p.onInt := by
  unfold Process.interrupt
  split
  · rfl
  · exact p.leave_onInt

/-- The next command, if the run is at one. -/
def Process.command (p : Process) : Option Command :=
  match p.activity with
  | .running _ (.op c _) => some c
  | _ => none

/-- The run after a command, with `k` left to do. -/
def Process.next (p : Process) (inHandler : Bool) (c : Command) (k : Shell Nat) : Process :=
  match c with
  | .trapInt arg => { p with onInt := some arg, activity := .running inHandler k }
  | .trapExit arg => { p with onExit := some arg, activity := .running inHandler k }
  | _ => { p with activity := .running inHandler k }

/-! ## The kernel and the runs -/

section
variable (ι : Type)

/-- The run that inserted the instance of the module that is loaded, and all runs. -/
structure State where
  loaded : Option ι
  run : ι → Process

/-- What an observer sees. -/
inductive Event
  /-- A command of the script, or of a handler. -/
  | performed (i : ι) (inHandler : Bool) (c : Command)
  /-- An `insmod` that succeeded. -/
  | inserted (i : ι) (file : Line)
  /-- An `rmmod` of run `i` that removed the instance of run `owner`. -/
  | removed (i owner : ι)
  deriving DecidableEq

/-- The next command of a run or its end, with what the environment answers; or Ctrl-C. -/
inductive Action
  | proceed (i : ι) (answer : (c : Command) → c.Res)
  | interrupt (i : ι)

end

section
variable {ι : Type} [DecidableEq ι] (file : Line)

/-- `insmod` needs an argument, and refuses the module `file` while it is loaded.  The module is
assumed to go by one word: no other word of a command line names it. -/
def State.answer (s : State ι) : (c : Command) → c.Res → c.Res
  | .insmod none, _ => false
  | .insmod (some w), r => r && (w ≠ file || s.loaded.isNone)
  | .idU, r | .trapInt _, r | .trapExit _, r | .rmmod _, r | .modIoctl _, r | .dmesg, r
  | .read, r => r

/-- The instance that is loaded after a command of run `i`, with the module under its one word. -/
def State.loadedAfter (s : State ι) (i : ι) : (c : Command) → c.Res → Option ι
  | .insmod arg, r => if r && arg = some file then some i else s.loaded
  | .rmmod arg, _ => if arg = some file then none else s.loaded
  | _, _ => s.loaded

/-- What a command of run `i` does to the module. -/
def State.effect (s : State ι) (i : ι) : (c : Command) → c.Res → List (Event ι)
  | .insmod (some w), r => if r then [.inserted i w] else []
  | .rmmod arg, _ =>
    match s.loaded with
    | some owner => if arg = some file then [.removed i owner] else []
    | none => []
  | _, _ => []

/-- What an observer sees of a command of run `i`. -/
def State.events (s : State ι) (i : ι) (inHandler : Bool) (c : Command) (r : c.Res) :
    List (Event ι) := .performed i inHandler c :: s.effect file i c r

def State.setRun (s : State ι) (i : ι) (p : Process) : State ι :=
  { s with run := Function.update s.run i p }

@[simp] theorem setRun_loaded (s : State ι) (i : ι) (p : Process) :
    (s.setRun i p).loaded = s.loaded := rfl

@[simp] theorem setRun_run_self (s : State ι) (i : ι) (p : Process) : (s.setRun i p).run i = p :=
  Function.update_self ..

theorem setRun_run_of_ne (s : State ι) {i j : ι} (h : i ≠ j) (p : Process) :
    (s.setRun j p).run i = s.run i := Function.update_of_ne h ..

/-- Run `i` has executed `c`, with the answer `r`, and goes on with `k`. -/
def State.execute (s : State ι) (i : ι) (inHandler : Bool) (c : Command) (k : c.Res → Shell Nat)
    (r : c.Res) : State ι :=
  { s.setRun i ((s.run i).next inHandler c (k r)) with loaded := s.loadedAfter file i c r }

@[simp] theorem execute_loaded (s : State ι) (i : ι) (b : Bool) (c : Command)
    (k : c.Res → Shell Nat) (r : c.Res) :
    (s.execute file i b c k r).loaded = s.loadedAfter file i c r := rfl

@[simp] theorem execute_run_self (s : State ι) (i : ι) (b : Bool) (c : Command)
    (k : c.Res → Shell Nat) (r : c.Res) :
    (s.execute file i b c k r).run i = (s.run i).next b c (k r) := setRun_run_self s i _

theorem execute_run_of_ne (s : State ι) {i j : ι} (h : i ≠ j) (b : Bool) (c : Command)
    (k : c.Res → Shell Nat) (r : c.Res) : (s.execute file j b c k r).run i = s.run i :=
  setRun_run_of_ne s h _

/-- One step of the runs. -/
def step (s : State ι) : Action ι → Option (List (Event ι) × State ι)
  | .interrupt i =>
    if (s.run i).activity.isExited then none
    else some ([], s.setRun i (s.run i).interrupt)
  | .proceed i answer =>
    match (s.run i).activity with
    | .exited => none
    | .running _ (.ret _) => some ([], s.setRun i (s.run i).leave)
    | .running inHandler (.op c k) =>
      let r := s.answer file c (answer c)
      some (s.events file i inHandler c r, s.execute file i inHandler c k r)

def system : System (State ι) (Action ι) (Event ι) where
  step := step file

omit [DecidableEq ι] in
/-- Every run at its beginning, and no module. -/
def initial (enhanced : Bool) (args : ι → List Word) : State ι where
  loaded := none
  run i := .start enhanced (args i)

end

/-! ## How far the script has come -/

/-- The traps that are set, and what has happened to the module. -/
inductive Stage
  | start
  | intSet
  | ready
  | inserted
  | done
  deriving DecidableEq

/-- The commands that change the traps or the module, in their order.  The traps are set
for `first`; `operand` is inserted and removed. -/
def Stage.next (first operand : Option Line) : Stage → (c : Command) → c.Res → Option Stage
  | .start, .trapInt arg, _ => if arg = first then some .intSet else none
  | .intSet, .trapExit arg, _ => if arg = first then some .ready else none
  | .ready, .insmod arg, r =>
    if arg = operand then some (if insmodStatus r = 1 then .done else .inserted) else none
  | .inserted, .rmmod arg, _ => if arg = operand then some .done else none
  | _, .trapInt _, _ | _, .trapExit _, _ | _, .insmod _, _ | _, .rmmod _, _ => none
  | t, .idU, _ | t, .modIoctl _, _ | t, .dmesg, _ | t, .read, _ => some t

/-- A command that changes neither the traps nor the module. -/
def Command.isQuiet : Command → Bool
  | .trapInt _ | .trapExit _ | .insmod _ | .rmmod _ => false
  | .idU | .modIoctl _ | .dmesg | .read => true

/-- The commands that are possible at a stage. -/
inductive Stage.Moves (first operand : Option Line) : Stage → (c : Command) → c.Res → Stage → Prop
  | trapInt (r : Unit) : Moves first operand .start (.trapInt first) r .intSet
  | trapExit (r : Unit) : Moves first operand .intSet (.trapExit first) r .ready
  | inserted : Moves first operand .ready (.insmod operand) true .inserted
  | refused : Moves first operand .ready (.insmod operand) false .done
  | removed (r : Unit) : Moves first operand .inserted (.rmmod operand) r .done
  | quiet (t : Stage) {c : Command} (h : c.isQuiet = true) (r : c.Res) : Moves first operand t c r t

theorem Stage.moves_of_next {first operand : Option Line} {t t' : Stage} {c : Command} {r : c.Res}
    (h : t.next first operand c r = some t') : t.Moves first operand c r t' := by
  cases c with
  | idU | modIoctl | dmesg | read =>
    obtain rfl : t = t' := by cases t <;> exact Option.some.inj h
    exact .quiet t rfl r
  | trapInt arg =>
    cases t <;> simp only [Stage.next, reduceCtorEq] at h
    split at h <;> cases h
    subst arg
    exact .trapInt r
  | trapExit arg =>
    cases t <;> simp only [Stage.next, reduceCtorEq] at h
    split at h <;> cases h
    subst arg
    exact .trapExit r
  | insmod arg =>
    cases t <;> simp only [Stage.next, reduceCtorEq] at h
    split at h <;> cases h
    subst arg
    -- the exit status decides the stage
    cases (r : Bool) with
    | true => exact .inserted
    | false => exact .refused
  | rmmod arg =>
    cases t <;> simp only [Stage.next, reduceCtorEq] at h
    split at h <;> cases h
    subst arg
    exact .removed r

/-- The handlers set. -/
def Stage.traps (first : Option Line) : Stage → Option (Option Line) × Option (Option Line)
  | .start => (none, none)
  | .intSet => (some first, none)
  | .ready | .inserted | .done => (some first, some first)

/-- The script goes through the stages. -/
abbrev InOrder (first operand : Option Line) (t : Stage) (p : Shell Nat) : Prop :=
  Prog.Follows (Stage.next first operand) (fun _ _ => True) t p

/-- The measurements change neither the traps nor the module. -/
theorem measurement_safe (first operand : Option Line) (o : Options) :
    Prog.Safe (fun _ _ => True)
      (fun c => ∀ r, Stage.next first operand .inserted c r = some .inserted) (measurement o) := by
  have hparse : Prog.Safe (fun _ _ => True)
      (fun c => ∀ r, Stage.next first operand .inserted c r = some .inserted) parse :=
    Prog.safe_op (fun _ => rfl) fun _ _ => Prog.safe_op (fun _ => rfl) fun _ _ => Prog.safe_ret _
  have hioctl : ∀ n, Prog.Safe (fun _ _ => True)
      (fun c => ∀ r, Stage.next first operand .inserted c r = some .inserted) (modIoctl n) :=
    fun n => Prog.safe_op (fun _ => rfl) fun _ _ => Prog.safe_ret _
  unfold measurement
  split
  · exact (hioctl 3).bind fun _ => Prog.safe_forEach (fun _ => hparse) _
  split
  · exact (hioctl 4).bind fun _ => Prog.safe_forFrom (fun _ _ => hparse) _ _ _
  · refine Prog.safe_forFrom (fun _ _ => ?_) _ _ _
    exact (hioctl _).bind fun _ => (Prog.safe_forEach (fun _ => hparse) _).bind fun _ =>
      (hioctl _).bind fun _ => Prog.safe_forEach (fun _ => hparse) _

theorem measure_inOrder (first operand : Option Line) (o : Options) :
    InOrder first operand .inserted (measure o operand) := by
  refine (measurement_safe first operand o).follows.bind fun t _ ht => ?_
  subst ht
  exact Prog.follows_op (fun _ => .done) (fun _ => if_pos rfl) fun _ => trivial

theorem allocate_inOrder (first operand : Option Line) (o : Options) :
    InOrder first operand .inserted (allocate o operand) := by
  unfold allocate
  split
  case isFalse => exact measure_inOrder first operand o
  case isTrue =>
    refine Prog.follows_op (fun _ => .inserted) (fun _ => rfl) fun _ => ?_
    refine Prog.follows_op (fun _ => .inserted) (fun _ => rfl) fun log => ?_
    -- without an address in the log the script gives up, and the module stays
    show InOrder first operand .inserted (match allocationStep log with | none => _ | some _ => _)
    cases allocationStep log with
    | none => exact trivial
    | some dm =>
      exact Prog.follows_op (fun _ => .inserted) (fun _ => rfl) fun _ =>
        measure_inOrder first operand o

theorem insert_inOrder (first operand : Option Line) (o : Options) :
    InOrder first operand .ready (insert o operand) := by
  refine Prog.follows_op (fun r => if insmodStatus r = 1 then .done else .inserted)
    (fun r => if_pos rfl) fun r => ?_
  -- `exit 1`, with nothing inserted
  show InOrder first operand _ (if insmodStatus r = 1 then _ else _)
  split
  · exact trivial
  · exact allocate_inOrder first operand o

/-- **The script goes through the stages in their order.** -/
theorem main_inOrder (enhanced : Bool) (args : List Line) :
    InOrder args.head? (parseArguments enhanced args).operand .start (main enhanced args) := by
  refine Prog.follows_op (fun _ => .start) (fun _ => rfl) fun (uid : Nat) => ?_
  -- not the superuser: no trap is set yet
  show InOrder _ _ .start (if uid ≠ 0 then _ else _)
  split
  · exact trivial
  refine Prog.follows_op (fun _ => .intSet) (fun _ => if_pos rfl) fun _ => ?_
  refine Prog.follows_op (fun _ => .ready) (fun _ => if_pos rfl) fun _ => ?_
  show InOrder _ _ .ready (parameters enhanced args)
  unfold parameters
  cases parseArguments enhanced args with
  | refused => exact trivial
  | help => exact trivial
  | run o ps => exact insert_inOrder args.head? ps.head? o

/-! ## What a run may still do -/

/-- A run with first word `first` and operand `operand`: the script at a stage, a handler, or
nothing. -/
inductive Process.Sound (first operand : Option Line) : Process → Option Stage → Prop
  | script {t : Stage} {p : Shell Nat} (h : InOrder first operand t p) :
    Sound first operand ⟨(t.traps first).1, (t.traps first).2, .running false p⟩ (some t)
  | handler {e : Option (Option Line)} {p : Shell Nat} (he : e = none ∨ e = some first)
    (h : Prog.Safe (fun _ _ => True) (· = .rmmod first) p) :
    Sound first operand ⟨some first, e, .running true p⟩ none
  | exited (int e : Option (Option Line)) : Sound first operand ⟨int, e, .exited⟩ none

section
variable {first operand : Option Line} {p : Process} {φ : Option Stage}

theorem Process.Sound.phase_of_exited (h : p.Sound first operand φ) (hp : p.activity = .exited) :
    φ = none := by
  cases h with
  | script => cases hp
  | handler => rfl
  | exited => rfl

theorem removeAndExit_safe (first : Option Line) :
    Prog.Safe (fun _ _ => True) (· = .rmmod first) (removeAndExit first) :=
  Prog.safe_op rfl fun _ _ => Prog.safe_ret _

theorem Process.sound_start (enhanced : Bool) (args : List Word) :
    Process.Sound (firstWord args) (operandOf enhanced args) (.start enhanced args)
      (some .start) := .script (main_inOrder enhanced _)

/-- The handler set by `trap ... EXIT` is the last thing that runs. -/
theorem Process.Sound.leave (h : p.Sound first operand φ) (hp : p.activity.isExited = false) :
    p.leave.Sound first operand none := by
  have hfinish : ∀ e, e = none ∨ e = some first →
      (Process.leave ⟨some first, e, p.activity⟩).Sound first operand none := by
    rintro e (rfl | rfl)
    · exact .exited _ _
    · exact .handler (Or.inl rfl) (removeAndExit_safe first)
  cases h with
  | @script t q h =>
    -- only from the second stage on is the `EXIT` handler set
    cases t with
    | start => exact .exited _ _
    | intSet => exact hfinish none (Or.inl rfl)
    | ready | inserted | done => exact hfinish (some first) (Or.inr rfl)
  | handler he h => exact hfinish _ he
  | exited => cases hp

/-- Ctrl-C starts the handler that is set. -/
theorem Process.Sound.interrupt (h : p.Sound first operand φ) (hp : p.activity.isExited = false) :
    p.interrupt.Sound first operand none := by
  have hctrlC : ∀ e, e = none ∨ e = some first →
      (Process.interrupt ⟨some first, e, p.activity⟩).Sound first operand none := fun e he =>
    .handler he (removeAndExit_safe first)
  cases h with
  | @script t q h =>
    cases t with
    | start => exact .exited _ _
    | intSet => exact hctrlC none (Or.inl rfl)
    | ready | inserted | done => exact hctrlC (some first) (Or.inr rfl)
  | handler he h => exact hctrlC _ he
  | exited => cases hp

/-- **A command of the script** takes it to its next stage. -/
theorem Process.Sound.script_next {c : Command} {k : c.Res → Shell Nat}
    (h : p.Sound first operand φ) (hp : p.activity = .running false (.op c k)) (r : c.Res) :
    ∃ t t', φ = some t ∧ (p.onInt, p.onExit) = t.traps first ∧ t.Moves first operand c r t' ∧
      (p.next false c (k r)).Sound first operand (some t') := by
  cases h with
  | @script t q h =>
    cases hp
    obtain ⟨t', ht', hk⟩ := h.step r
    have hmoves := Stage.moves_of_next ht'
    refine ⟨t, t', rfl, rfl, hmoves, ?_⟩
    have hsound := Process.Sound.script hk
    cases hmoves with
    | quiet t hc r =>
      cases c with
      | idU | modIoctl | dmesg | read => exact hsound
      | trapInt | trapExit | insmod | rmmod => cases hc
    | trapInt | trapExit | inserted | refused | removed => exact hsound
  | handler => cases hp
  | exited => cases hp

/-- **A command of a handler** is its `rmmod`. -/
theorem Process.Sound.handler_next {c : Command} {k : c.Res → Shell Nat}
    (h : p.Sound first operand φ) (hp : p.activity = .running true (.op c k)) (r : c.Res) :
    φ = none ∧ p.onInt = some first ∧ c = .rmmod first ∧
      (p.next true c (k r)).Sound first operand none := by
  cases h with
  | handler he h =>
    cases hp
    obtain ⟨rfl, hk⟩ := h.step (r := r) trivial
    exact ⟨rfl, rfl, rfl, .handler he hk⟩
  | script => cases hp
  | exited => cases hp

end

/-! ## What a step is -/

section
variable {ι : Type} [DecidableEq ι] {file : Line} {s s' : State ι} {a : Action ι}
  {es : List (Event ι)}

/-- The steps, one by one. -/
inductive Stepped (file : Line) (s : State ι) : Action ι → List (Event ι) → State ι → Prop
  | interrupted (i : ι) (h : (s.run i).activity.isExited = false) :
    Stepped file s (.interrupt i) [] (s.setRun i (s.run i).interrupt)
  | left (i : ι) (answer : (c : Command) → c.Res) {inHandler : Bool} {status : Nat}
    (h : (s.run i).activity = .running inHandler (.ret status)) :
    Stepped file s (.proceed i answer) [] (s.setRun i (s.run i).leave)
  | performed (i : ι) (answer : (c : Command) → c.Res) {inHandler : Bool} {c : Command}
    {k : c.Res → Shell Nat} (h : (s.run i).activity = .running inHandler (.op c k)) (r : c.Res)
    (hr : r = s.answer file c (answer c)) :
    Stepped file s (.proceed i answer) (s.events file i inHandler c r)
      (s.execute file i inHandler c k r)

theorem stepped_of_step (h : step file s a = some (es, s')) : Stepped file s a es s' := by
  cases a with
  | interrupt i =>
    simp only [step] at h
    split at h
    case isTrue => cases h
    case isFalse hi =>
      cases h
      exact .interrupted i ((Bool.not_eq_true _).mp hi)
  | proceed i answer =>
    simp only [step] at h
    split at h
    case h_1 => cases h
    case h_2 inHandler status hi =>
      cases h
      exact .left i answer hi
    case h_3 inHandler c k hi =>
      cases h
      exact .performed i answer hi _ rfl

theorem step_perform (file : Line) {i : ι} (answer : (c : Command) → c.Res) {inHandler : Bool}
    {c : Command} {k : c.Res → Shell Nat} (h : (s.run i).activity = .running inHandler (.op c k)) :
    (system file).step s (.proceed i answer) =
      some (s.events file i inHandler c (s.answer file c (answer c)),
        s.execute file i inHandler c k (s.answer file c (answer c))) := by
  simp only [system, step, h]

theorem step_leave (file : Line) {i : ι} (answer : (c : Command) → c.Res) {inHandler : Bool}
    {status : Nat} (h : (s.run i).activity = .running inHandler (.ret status)) :
    (system file).step s (.proceed i answer) = some ([], s.setRun i (s.run i).leave) := by
  simp only [system, step, h]

theorem step_interrupt (file : Line) {i : ι} (h : (s.run i).activity.isExited = false) :
    (system file).step s (.interrupt i) = some ([], s.setRun i (s.run i).interrupt) := by
  simp only [system, step, h]
  rfl

end

/-! ## Events -/

section
variable {ι : Type} {file : Line} {s : State ι}

/-- **What a command can do to the module.** -/
theorem mem_effect {i : ι} {c : Command} {r : c.Res} {e : Event ι} (h : e ∈ s.effect file i c r) :
    (∃ w, e = .inserted i w ∧ c = .insmod (some w)) ∨
      ∃ owner, e = .removed i owner ∧ c = .rmmod (some file) ∧ s.loaded = some owner := by
  cases c with
  | insmod arg =>
    cases arg with
    | none => cases h
    | some w =>
      simp only [State.effect] at h
      split at h
      case isFalse => cases h
      case isTrue => exact Or.inl ⟨w, List.mem_singleton.mp h, rfl⟩
  | rmmod arg =>
    simp only [State.effect] at h
    split at h
    case h_2 => cases h
    case h_1 owner howner =>
      split at h
      case isFalse => cases h
      case isTrue harg =>
        subst harg
        exact Or.inr ⟨owner, List.mem_singleton.mp h, rfl, howner⟩
  | idU | trapInt | trapExit | modIoctl | dmesg | read => cases h

theorem performed_mem_events {i j : ι} {b b' : Bool} {c c' : Command} {r : c.Res} :
    .performed i b' c' ∈ s.events file j b c r ↔ i = j ∧ b' = b ∧ c' = c := by
  have hno : .performed i b' c' ∉ s.effect file j c r := by
    intro h
    rcases mem_effect h with ⟨w, he, -⟩ | ⟨owner, he, -⟩
    · cases he
    · cases he
  rw [State.events, List.mem_cons, or_iff_left hno, Event.performed.injEq]

theorem inserted_mem_events {i j : ι} {w : Line} {b : Bool} {c : Command} {r : c.Res}
    (h : .inserted i w ∈ s.events file j b c r) : i = j ∧ c = .insmod (some w) := by
  rcases List.mem_cons.mp h with h | h
  · cases h
  rcases mem_effect h with ⟨w', he, hc⟩ | ⟨owner, he, -⟩
  · obtain ⟨rfl, rfl⟩ := Event.inserted.inj he
    exact ⟨rfl, hc⟩
  · cases he

theorem removed_mem_events {i j owner : ι} {b : Bool} {c : Command} {r : c.Res}
    (h : .removed i owner ∈ s.events file j b c r) :
    i = j ∧ c = .rmmod (some file) ∧ s.loaded = some owner := by
  rcases List.mem_cons.mp h with h | h
  · cases h
  rcases mem_effect h with ⟨w, he, -⟩ | ⟨owner', he, hc, hl⟩
  · cases he
  · obtain ⟨rfl, rfl⟩ := Event.removed.inj he
    exact ⟨rfl, hc, hl⟩

end

end EcrToolkit.EcrSh
