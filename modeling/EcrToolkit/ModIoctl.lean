import EcrToolkit.Handlers
import EcrToolkit.Strtoul
import EcrToolkit.TextTools

/-!
# `mod_ioctl`

The program that issues the ioctls.  Its arguments go through `strtoul_handler`, which
takes the unsigned result of `strtoul` for a `long` and compares it with `LONG_MAX` and
`LONG_MIN`: an overflow gives neither, and is not noticed (`handler_judges_iff`).
-/
namespace EcrToolkit.ModIoctl

open Strtoul TextTools

/-! ## The process -/

/-- What the process does that others see. -/
inductive Effect
  | puts (s : String)
  | printf (text : Line)
  /-- The message, and the `errno` it is about. -/
  | perror (s : String) (errno : Int)
  /-- `fprintf(stderr, s)`. -/
  | fprintf (s : String)
  | openDev (path : String)
  | ioctl (request : BitVec 32) (i j : BitVec 64)
  | close (fd : Int)
  deriving DecidableEq

/-- `errno`, and what the process has done. -/
structure Process where
  errno : Int
  effects : List Effect

/-- Code that returns, or exits with a status. -/
abbrev Run := EStateM Nat Process

def exitSuccess : Nat := 0
def exitFailure : Nat := 1
def eRange : Int := 34

/-- `LONG_MAX`. -/
def longMax : BitVec 64 := BitVec.intMax 64

/-- `LONG_MIN`. -/
def longMin : BitVec 64 := BitVec.intMin 64

def emit (e : Effect) : Run Unit := fun p => .ok () { p with effects := p.effects ++ [e] }

def getErrno : Run Int := fun p => .ok p.errno p

def setErrno (n : Int) : Run Unit := fun p => .ok () { p with errno := n }

def perror (s : String) : Run Unit := do emit (.perror s (← getErrno))

def exit {α : Type} (status : Nat) : Run α := fun p => .error status p

/-- What the kernel answers: the descriptor, and for an ioctl its result; and the `errno`
of a call that fails. -/
structure Kernel where
  fd : Int
  openErrno : Int
  ioctl : BitVec 32 → BitVec 64 → BitVec 64 → Int × Int

def openDev (k : Kernel) : Run Int := do
  emit (.openDev "/dev/ECR")
  if k.fd = -1 then setErrno k.openErrno
  return k.fd

def ioctl (k : Kernel) (request : BitVec 32) (i j : BitVec 64) : Run Int := do
  emit (.ioctl request i j)
  let (ret, errno) := k.ioctl request i j
  if ret = -1 then setErrno errno
  return ret

section
variable {α β : Type} {x : Run α} {f : α → Run β} {p p' q : Process}

theorem bind_of_ok {a : α} (h : x p = .ok a q) : (x >>= f : Run β) p = f a q := by
  show EStateM.bind x f p = _
  rw [EStateM.bind, h]

theorem bind_of_error {status : Nat} (h : x p = .error status q) :
    (x >>= f : Run β) p = .error status q := by
  show EStateM.bind x f p = _
  rw [EStateM.bind, h]

/-- Code that returns has returned from its first part. -/
theorem of_bind_ok {b : β} (h : (x >>= f : Run β) p = .ok b p') :
    ∃ a q, x p = .ok a q ∧ f a q = .ok b p' := by
  cases hx : x p with
  | ok a q => exact ⟨a, q, rfl, (bind_of_ok hx).symm.trans h⟩
  | error status q => cases (bind_of_error hx).symm.trans h

end

/-! ## `strtoul_handler` -/

/-- `(errno == ERANGE && (in_arg == LONG_MAX || in_arg == LONG_MIN))
|| (errno != 0 && in_arg == 0)`. -/
def rejects (errno : Int) (inArg : BitVec 64) : Bool :=
  (errno == eRange && (inArg == longMax || inArg == longMin)) || (errno != 0 && inArg == 0)

/-- `strtoul`, which sets `errno` if the numeral is too large and otherwise leaves it. -/
def callStrtoul (val : Line) (base : Base) : Run Conversion := fun p =>
  .ok (strtoul val base) { p with errno := if (strtoul val base).range then eRange else p.errno }

def strtoulHandler (val : Line) (base : Base) : Run (BitVec 64) := do
  let r ← callStrtoul val base
  -- a `long` from here on
  let inArg := r.value
  if rejects (← getErrno) inArg then
    perror "Error encountered in strtoul_handler."
    exit exitFailure
  else if r.endptr = 0 then
    perror "No digits were found\n"
    exit exitFailure
  else
    if val.drop r.endptr ≠ [] then
      emit (.printf ("Further characters after number: ".toList ++ val.drop r.endptr ++ ['\n']))
    return inArg

/-! ## `main` -/

/-- `if ( argc > n )`: an optional argument, or `0`. -/
def optionalArgument : Option Line → Run (BitVec 64)
  | some val => strtoulHandler val .sixteen
  | none => return 0

/-- `arg_struct.i` and `arg_struct.j`, for the arguments after the option. -/
def argStruct (rest : List Line) : Run (BitVec 64 × BitVec 64) := do
  let i ← optionalArgument rest[0]?
  let j ← optionalArgument rest[1]?
  return (i, j)

/-- The cases of the `switch`. -/
def request? (option : BitVec 64) : Option (BitVec 32) :=
  if option = 0 then some timingIoctlNop
  else if option = 1 then some timingIoctlWall
  else if option = 2 then some timingIoctlThread
  else if option = 3 then some timingIoctlCache
  else if option = 4 then some timingIoctlMemory
  else if option = 5 then some timingIoctlWallFl
  else if option = 6 then some timingIoctlThreadFl
  else if option = 7 then some timingIoctlKmalloc
  else none

/-- `IOCTL_HANDLER`. -/
def ioctlHandler (ret : Int) (i j : BitVec 64) : Run Unit := do
  if ret = -1 then
    perror "ioctl() failed"
    exit exitFailure
  else
    let errno ← getErrno
    emit (.printf ("IOCTL completed with arguments: 0x" ++ hex i.toNat ++ ", 0x" ++ hex j.toNat ++
      "; ioctl() returned: 0x" ++ hex (BitVec.ofInt 32 ret).toNat ++ "; errno: " ++
        Int.repr errno ++ "\n").toList)

/-- The cases of the `switch`, and `default`. -/
def select (k : Kernel) (option i j : BitVec 64) : Run Unit :=
  match request? option with
  | some request => do
    let ret ← ioctl k request i j
    ioctlHandler ret i j
  | none => emit (.fprintf "Invalid option selection\n")

/-- `main`, for the arguments after the name of the program. -/
def main (k : Kernel) : List Line → Run Unit
  | [] => do
    emit (.puts "Usage: ./prog <option (0: nop, 1: run timing, 2: kmalloc)> [unused] [unused]")
    exit exitFailure
  | option :: rest => do
    let fd ← openDev k
    if fd = -1 then
      perror "Could not open the IOCTL /dev/ECR"
      exit exitFailure
    else
      let (i, j) ← argStruct rest
      select k (← strtoulHandler option .ten) i j
      emit (.close fd)
      exit exitSuccess

/-! ## What the handler decides -/

/-- `errno` after a conversion. -/
def errnoAfter (errno : Int) (val : Line) (b : Base) : Int :=
  if (strtoul val b).range then eRange else errno

/-- What is printed about the characters after the number. -/
def remark (val : Line) (b : Base) : List Effect :=
  if val.drop (strtoul val b).endptr ≠ [] then
    [.printf ("Further characters after number: ".toList ++ val.drop (strtoul val b).endptr ++
      ['\n'])]
  else []

variable {val : Line} {b : Base} {p p' : Process}

/-- **The three ends of the handler.** -/
theorem strtoulHandler_eq (val : Line) (b : Base) (p : Process) : strtoulHandler val b p =
    if rejects (errnoAfter p.errno val b) (strtoul val b).value then
      .error exitFailure ⟨errnoAfter p.errno val b, p.effects ++
        [.perror "Error encountered in strtoul_handler." (errnoAfter p.errno val b)]⟩
    else if (strtoul val b).endptr = 0 then
      .error exitFailure ⟨errnoAfter p.errno val b, p.effects ++
        [.perror "No digits were found\n" (errnoAfter p.errno val b)]⟩
    else .ok (strtoul val b).value ⟨errnoAfter p.errno val b, p.effects ++ remark val b⟩ := by
  show (if rejects (errnoAfter p.errno val b) (strtoul val b).value then (_ : Run (BitVec 64))
    else if (strtoul val b).endptr = 0 then _ else _) _ = _
  split
  case isTrue => rfl
  case isFalse =>
    split
    case isTrue => rfl
    case isFalse =>
      unfold remark
      by_cases hrest : val.drop (strtoul val b).endptr ≠ []
      · rw [if_pos hrest, if_pos hrest]
        rfl
      · rw [if_neg hrest, if_neg hrest, List.append_nil]
        rfl

/-- Called with `errno = 0`, the first test never fires: a zero comes without `ERANGE`, and
what comes with it is `-1` as a `long`. -/
theorem rejects_of_zero (val : Line) (b : Base) :
    rejects (errnoAfter 0 val b) (strtoul val b).value = false := by
  unfold errnoAfter
  split
  case isTrue h =>
    rw [strtoul_of_overflow (strtoul_range_iff.mp h)]
    decide
  case isFalse => rfl

/-- **Called with `errno = 0`**, the handler exits if and only if there is no numeral. -/
theorem strtoulHandler_of_zero (val : Line) (b : Base) (es : List Effect) :
    strtoulHandler val b ⟨0, es⟩ =
      if numeral b val = none then
        .error exitFailure ⟨errnoAfter 0 val b, es ++
          [.perror "No digits were found\n" (errnoAfter 0 val b)]⟩
      else .ok (strtoul val b).value ⟨errnoAfter 0 val b, es ++ remark val b⟩ := by
  rw [strtoulHandler_eq, rejects_of_zero, if_neg Bool.false_ne_true]
  by_cases h : numeral b val = none
  · rw [if_pos (strtoul_endptr_eq_zero_iff.mpr h), if_pos h]
  · rw [if_neg fun hz => h (strtoul_endptr_eq_zero_iff.mp hz), if_neg h]

/-- The handler, called with `errno = 0`, exits with `EXIT_FAILURE` if and only if there is
no numeral or it is above `ULONG_MAX`, and otherwise returns what `strtoul` returned: the
same 64 bits as a `long`, and again in an `unsigned long`. -/
def Judges (val : Line) (b : Base) (es : List Effect) : Prop :=
  ((∃ p, strtoulHandler val b ⟨0, es⟩ = .error exitFailure p) ↔
      numeral b val = none ∨ Overflows b val) ∧
    (¬ (numeral b val = none ∨ Overflows b val) →
      ∃ p, strtoulHandler val b ⟨0, es⟩ = .ok (strtoul val b).value p)

/-- **When the handler judges right**: unless the numeral is above `ULONG_MAX`. -/
theorem handler_judges_iff (val : Line) (b : Base) (es : List Effect) :
    Judges val b es ↔ ¬ Overflows b val := by
  unfold Judges
  rw [strtoulHandler_of_zero]
  by_cases hnone : numeral b val = none
  · rw [if_pos hnone]
    refine iff_of_true ⟨iff_of_true ⟨_, rfl⟩ (Or.inl hnone), ?_⟩ fun h => h.numeral_ne_none hnone
    exact fun h => absurd (Or.inl hnone) h
  · rw [if_neg hnone]
    constructor
    · rintro ⟨hexits, -⟩ hoverflow
      obtain ⟨p, hp⟩ := hexits.mpr (Or.inr hoverflow)
      cases hp
    · intro hfits
      have hgood : ¬ (numeral b val = none ∨ Overflows b val) := not_or.mpr ⟨hnone, hfits⟩
      exact ⟨iff_of_false (fun ⟨_, hp⟩ => nomatch hp) hgood, fun _ => ⟨_, rfl⟩⟩

/-- **An overflow is not noticed**: for `2 ^ 64` the handler returns. -/
theorem handler_judges_fails :
    ¬ ∀ val, ∀ b ∈ [Base.ten, Base.sixteen], ∀ es, Judges val b es := by
  intro hall
  have hfits := (handler_judges_iff _ _ _).mp
    (hall "18446744073709551616".toList .ten (List.mem_cons_self ..) [])
  refine hfits (strtoul_range_iff.mp ?_)
  decide +kernel

end EcrToolkit.ModIoctl
