import EcrToolkit.ModIoctl

/-!
# The option of `mod_ioctl` and its optional arguments

`main` parses `argv[2]` and `argv[3]` before the option, and nothing resets `errno` in
between.  So after an overflow of one of them `errno` is `ERANGE` when the option is
parsed, and the handler takes the values `0`, `LONG_MAX` and `LONG_MIN` for errors
(`sameHandling_iff`).
-/
namespace EcrToolkit.ModIoctl

open Strtoul TextTools

/-- How the option was handled. -/
inductive Handling
  | issued (request : BitVec 32)
  | invalid
  | exited (status : Nat)
  deriving DecidableEq

def Effect.request? : Effect → Option (BitVec 32)
  | .ioctl request _ _ => some request
  | _ => none

/-- The first ioctl, or the message of `default`, or else the status. -/
def handled (status : Nat) (es : List Effect) : Handling :=
  match es.findSome? Effect.request? with
  | some request => .issued request
  | none =>
    if Effect.fprintf "Invalid option selection\n" ∈ es then .invalid else .exited status

/-- How a run of `main` handled the option. -/
def handling : EStateM.Result Nat Process Unit → Handling
  | .ok _ p => handled exitSuccess p.effects
  | .error status p => handled status p.effects

/-- The process when the device is open. -/
def opened : Process := ⟨0, [.openDev "/dev/ECR"]⟩

/-- The arguments after the option, if their parses do not end the process. -/
structure Arguments where
  rest : List Line
  returns : ∃ ij p, argStruct rest opened = .ok ij p

/-- One of the two optional arguments is above `ULONG_MAX`. -/
def Arguments.Overflow (a : Arguments) : Prop := ∃ val ∈ a.rest.take 2, Overflows .sixteen val

/-- What the option is taken for, with a given `errno`. -/
def choose (errno : Int) (option : Line) : Handling :=
  if rejects (errnoAfter errno option .ten) (strtoul option .ten).value then .exited exitFailure
  else if (strtoul option .ten).endptr = 0 then .exited exitFailure
  else
    match request? (strtoul option .ten).value with
    | some request => .issued request
    | none => .invalid

/-- Nothing that `handled` looks for. -/
def Quiet (es : List Effect) : Prop :=
  ∀ e ∈ es, e.request? = none ∧ e ≠ .fprintf "Invalid option selection\n"

theorem quiet_remark (val : Line) (b : Base) : Quiet (remark val b) := by
  unfold remark
  split
  · exact List.forall_mem_singleton.mpr ⟨rfl, nofun⟩
  · nofun

theorem Quiet.append {es es' : List Effect} (h : Quiet es) (h' : Quiet es') : Quiet (es ++ es') :=
  List.forall_mem_append.mpr ⟨h, h'⟩

theorem handled_append {es es' : List Effect} {status : Nat} (h : Quiet es) :
    handled status (es ++ es') = handled status es' := by
  have hnone : es.findSome? Effect.request? = none :=
    List.findSome?_eq_none_iff.mpr fun e he => (h e he).1
  have hmem : Effect.fprintf "Invalid option selection\n" ∉ es := fun he => (h _ he).2 rfl
  unfold handled
  rw [List.findSome?_append, hnone, Option.none_or]
  simp only [List.mem_append, hmem, false_or]

variable {p p' : Process}

/-- `errno` after an optional argument. -/
def errnoAfter? (errno : Int) : Option Line → Int
  | some val => errnoAfter errno val .sixteen
  | none => errno

theorem optionalArgument_ok {arg : Option Line} {v : BitVec 64}
    (h : optionalArgument arg p = .ok v p') :
    p'.errno = errnoAfter? p.errno arg ∧ (Quiet p.effects → Quiet p'.effects) := by
  cases arg with
  | none =>
    cases h
    exact ⟨rfl, id⟩
  | some val =>
    have hrun : strtoulHandler val .sixteen p = .ok v p' := h
    rw [strtoulHandler_eq] at hrun
    split at hrun
    case isTrue => cases hrun
    case isFalse =>
      split at hrun
      case isTrue => cases hrun
      case isFalse =>
        cases hrun
        exact ⟨rfl, fun hp => hp.append (quiet_remark val _)⟩

theorem argStruct_ok {rest : List Line} {ij : BitVec 64 × BitVec 64}
    (h : argStruct rest p = .ok ij p') :
    p'.errno = errnoAfter? (errnoAfter? p.errno rest[0]?) rest[1]? ∧
      (Quiet p.effects → Quiet p'.effects) := by
  obtain ⟨i, q, hi, hrest⟩ := of_bind_ok h
  obtain ⟨j, q', hj, hret⟩ := of_bind_ok hrest
  cases hret
  obtain ⟨herrno, hquiet⟩ := optionalArgument_ok hi
  obtain ⟨herrno', hquiet'⟩ := optionalArgument_ok hj
  exact ⟨by rw [herrno', herrno], fun hp => hquiet' (hquiet hp)⟩

/-- `errno` when the option is parsed. -/
def Arguments.errno (a : Arguments) : Int := errnoAfter? (errnoAfter? 0 a.rest[0]?) a.rest[1]?

theorem errnoAfter?_eq (errno : Int) (arg : Option Line) :
    (∃ val ∈ arg, Overflows .sixteen val) ∧ errnoAfter? errno arg = eRange ∨
      (¬ ∃ val ∈ arg, Overflows .sixteen val) ∧ errnoAfter? errno arg = errno := by
  cases arg with
  | none => exact Or.inr ⟨nofun, rfl⟩
  | some val =>
    by_cases h : Overflows .sixteen val
    · exact Or.inl ⟨⟨val, rfl, h⟩, if_pos (strtoul_range_iff.mpr h)⟩
    · refine Or.inr ⟨?_, if_neg fun hr => h (strtoul_range_iff.mp hr)⟩
      rintro ⟨val', hval, hoverflow⟩
      obtain rfl := Option.some.inj hval
      exact h hoverflow

/-- **An overflow stays in `errno`.** -/
theorem Arguments.errno_eq (a : Arguments) :
    (a.Overflow ∧ a.errno = eRange) ∨ (¬ a.Overflow ∧ a.errno = 0) := by
  have hmem : a.Overflow ↔ (∃ val ∈ a.rest[0]?, Overflows .sixteen val) ∨
      ∃ val ∈ a.rest[1]?, Overflows .sixteen val := by
    unfold Arguments.Overflow
    rcases a.rest with _ | ⟨x, _ | ⟨y, rest⟩⟩ <;> simp
  rw [hmem, Arguments.errno]
  rcases errnoAfter?_eq 0 a.rest[0]? with ⟨h₀, he₀⟩ | ⟨h₀, he₀⟩
  · rw [he₀]
    rcases errnoAfter?_eq eRange a.rest[1]? with ⟨-, he₁⟩ | ⟨-, he₁⟩
    · exact Or.inl ⟨Or.inl h₀, he₁⟩
    · exact Or.inl ⟨Or.inl h₀, he₁⟩
  · rw [he₀]
    rcases errnoAfter?_eq 0 a.rest[1]? with ⟨h₁, he₁⟩ | ⟨h₁, he₁⟩
    · exact Or.inl ⟨Or.inr h₁, he₁⟩
    · exact Or.inr ⟨not_or.mpr ⟨h₀, h₁⟩, he₁⟩

/-! ## What `main` does with the option -/

theorem ioctl_eq (k : Kernel) (request : BitVec 32) (i j : BitVec 64) (p : Process) :
    ∃ errno, ioctl k request i j p =
      .ok (k.ioctl request i j).1 ⟨errno, p.effects ++ [.ioctl request i j]⟩ := by
  by_cases h : (k.ioctl request i j).1 = -1
  · refine ⟨(k.ioctl request i j).2, ?_⟩
    show (if (k.ioctl request i j).1 = -1 then (_ : Run Int) else _) _ = _
    rw [if_pos h]
    rfl
  · refine ⟨p.errno, ?_⟩
    show (if (k.ioctl request i j).1 = -1 then (_ : Run Int) else _) _ = _
    rw [if_neg h]
    rfl

/-- What comes after an ioctl does not matter. -/
theorem handled_ioctl {es : List Effect} (h : Quiet es) (status : Nat) (request : BitVec 32)
    (i j : BitVec 64) (es' : List Effect) :
    handled status (es ++ [.ioctl request i j] ++ es') = .issued request := by
  rw [List.append_assoc, handled_append h]
  rfl

/-- The `switch` issues its ioctl first, or else prints the message. -/
theorem handling_select {k : Kernel} {option i j : BitVec 64} {fd : Int} (hp : Quiet p.effects) :
    handling ((select k option i j >>= fun _ => emit (.close fd) >>= fun _ =>
        (exit exitSuccess : Run Unit)) p) =
      match request? option with
      | some request => .issued request
      | none => .invalid := by
  unfold select
  cases request? option with
  | none =>
    show handled exitSuccess (p.effects ++ [.fprintf _] ++ [.close fd]) = _
    rw [List.append_assoc, handled_append hp]
    rfl
  | some request =>
    obtain ⟨errno, hioctl⟩ := ioctl_eq k request i j p
    have hhandler := bind_of_ok (f := fun ret => ioctlHandler ret i j) hioctl
    by_cases h : (k.ioctl request i j).1 = -1
    · have hexit := hhandler.trans (congrFun (if_pos h) _)
      rw [bind_of_error (hexit.trans rfl)]
      exact handled_ioctl hp _ request i j [_]
    · have hreturn := hhandler.trans (congrFun (if_neg h) _)
      rw [bind_of_ok (hreturn.trans rfl)]
      show handled exitSuccess (p.effects ++ [.ioctl request i j] ++ [_] ++ [_]) = _
      rw [List.append_assoc _ [_] [_]]
      exact handled_ioctl hp _ request i j _

/-- **How the option is handled** depends on nothing but itself and `errno`. -/
theorem handling_main {k : Kernel} (hk : k.fd ≠ -1) (option : Line) (a : Arguments) :
    handling (main k (option :: a.rest) ⟨0, []⟩) = choose a.errno option := by
  obtain ⟨⟨i, j⟩, p, hargs⟩ := a.returns
  obtain ⟨herrno, hquiet⟩ := argStruct_ok hargs
  have hp : Quiet p.effects := hquiet (List.forall_mem_singleton.mpr ⟨rfl, nofun⟩)
  have hopen : openDev k ⟨0, []⟩ = .ok k.fd opened := by
    show (if k.fd = -1 then (_ : Run Int) else _) _ = _
    rw [if_neg hk]
    rfl
  have hmain : main k (option :: a.rest) ⟨0, []⟩ =
      (strtoulHandler option .ten >>= fun v => select k v i j >>= fun _ =>
        emit (.close k.fd) >>= fun _ => (exit exitSuccess : Run Unit)) p := by
    rw [main, bind_of_ok hopen, if_neg hk, bind_of_ok hargs]
  have hend := strtoulHandler_eq option .ten p
  rw [hmain, choose, Arguments.errno]
  rw [herrno] at hend
  split
  case isTrue hrejects =>
    rw [bind_of_error (hend.trans (if_pos hrejects))]
    exact handled_append hp
  case isFalse hrejects =>
    split
    case isTrue hnone =>
      rw [bind_of_error (hend.trans ((if_neg hrejects).trans (if_pos hnone)))]
      exact handled_append hp
    case isFalse hnone =>
      rw [bind_of_ok (hend.trans ((if_neg hrejects).trans (if_neg hnone)))]
      exact handling_select (hp.append (quiet_remark option _))

/-! ## Two choices of the optional arguments -/

/-- The option is a number that the handler takes for an error when `errno` is set. -/
def Sensitive (option : Line) : Prop :=
  numeral .ten option ≠ none ∧ (strtoul option .ten).value ∈ [0, longMax, longMin]

theorem rejects_of_range {v : BitVec 64} : rejects eRange v = true ↔ v ∈ [0, longMax, longMin] := by
  have herange : (eRange != 0) = true := rfl
  rw [rejects, beq_self_eq_true, herange, Bool.true_and, Bool.true_and, Bool.or_eq_true,
    Bool.or_eq_true, beq_iff_eq, beq_iff_eq, beq_iff_eq]
  simp only [List.mem_cons, List.not_mem_nil, or_false]
  tauto

/-- **A leftover `ERANGE`** changes the handling of the sensitive options, and no other. -/
theorem choose_eq_iff (option : Line) : choose eRange option = choose 0 option ↔
    ¬ Sensitive option := by
  have hzero := rejects_of_zero option .ten
  by_cases hnone : numeral .ten option = none
  · -- without a numeral both exit
    have hend := strtoul_endptr_eq_zero_iff.mpr hnone
    refine iff_of_true ?_ fun h => h.1 hnone
    unfold choose
    rw [hzero, if_pos hend, ite_self]
    rfl
  · have hend : ¬ (strtoul option .ten).endptr = 0 := fun h =>
      hnone (strtoul_endptr_eq_zero_iff.mp h)
    have hsensitive : Sensitive option ↔ (strtoul option .ten).value ∈ [0, longMax, longMin] :=
      and_iff_right hnone
    rw [hsensitive, ← rejects_of_range]
    by_cases hrange : (strtoul option .ten).range = true
    · -- an overflow sets `errno` itself
      have hsame : ∀ errno, errnoAfter errno option .ten = eRange := fun _ => if_pos hrange
      rw [hsame] at hzero
      refine iff_of_true ?_ (by rw [hzero]; exact Bool.false_ne_true)
      rw [choose, choose, hsame, hsame]
    · have hleft : errnoAfter eRange option .ten = eRange := if_neg hrange
      unfold choose
      rw [hzero, hleft, if_neg Bool.false_ne_true, if_neg hend]
      by_cases hrejects : rejects eRange (strtoul option .ten).value = true
      · rw [if_pos hrejects]
        refine iff_of_false ?_ (not_not_intro hrejects)
        cases request? (strtoul option .ten).value <;> nofun
      · rw [if_neg hrejects]
        exact iff_of_true rfl hrejects

/-- **When the optional arguments do not matter**: the option is not sensitive, or one of
them overflows in both runs or in neither. -/
theorem sameHandling_iff {k k' : Kernel} (hk : k.fd ≠ -1) (hk' : k'.fd ≠ -1) (option : Line)
    (a a' : Arguments) :
    handling (main k (option :: a.rest) ⟨0, []⟩) =
        handling (main k' (option :: a'.rest) ⟨0, []⟩) ↔
      ¬ Sensitive option ∨ (a.Overflow ↔ a'.Overflow) := by
  rw [handling_main hk, handling_main hk', ← choose_eq_iff]
  rcases a.errno_eq with ⟨ha, he⟩ | ⟨ha, he⟩ <;> rcases a'.errno_eq with ⟨ha', he'⟩ | ⟨ha', he'⟩
  · rw [he, he']
    exact iff_of_true rfl (Or.inr (iff_of_true ha ha'))
  · rw [he, he', or_iff_left fun h => ha' (h.mp ha)]
  · rw [he, he', or_iff_left fun h => ha (h.mpr ha')]
    exact eq_comm
  · rw [he, he']
    exact iff_of_true rfl (Or.inr (iff_of_false ha ha'))

theorem argStruct_returns {val : Line} (h : numeral .sixteen val ≠ none) :
    ∃ ij p, argStruct [val] opened = .ok ij p :=
  ⟨_, _, bind_of_ok ((strtoulHandler_of_zero val .sixteen _).trans (if_neg h))⟩

/-- A kernel that answers every ioctl with `0`. -/
def quietKernel : Kernel := ⟨3, 0, fun _ _ _ => (0, 0)⟩

/-- No optional arguments. -/
def noArguments : Arguments := ⟨[], _, _, rfl⟩

/-- An optional argument of seventeen digits. -/
def longArgument : Arguments where
  rest := ["fffffffffffffffff".toList]
  returns := argStruct_returns (by decide +kernel)

theorem longArgument_overflow : longArgument.Overflow := by
  refine ⟨_, List.mem_cons_self .., strtoul_range_iff.mp ?_⟩
  decide +kernel

/-- `mod_ioctl 5` issues the same ioctl with it. -/
theorem sameHandling_five :
    handling (main quietKernel ["5".toList] ⟨0, []⟩) =
      handling (main quietKernel ["5".toList, "fffffffffffffffff".toList] ⟨0, []⟩) :=
  (sameHandling_iff (by decide) (by decide) _ noArguments longArgument).mpr
    (Or.inl fun h => absurd h.2 (by decide +kernel))

/-- **`mod_ioctl 0` does not**: it exits instead. -/
theorem sameHandling_fails : ¬ ∀ (k k' : Kernel), k.fd ≠ -1 → k'.fd ≠ -1 →
    ∀ (option : Line) (a a' : Arguments), handling (main k (option :: a.rest) ⟨0, []⟩) =
      handling (main k' (option :: a'.rest) ⟨0, []⟩) := by
  intro hall
  have hsame := hall quietKernel quietKernel (by decide) (by decide) "0".toList noArguments
    longArgument
  rcases (sameHandling_iff (by decide) (by decide) _ _ _).mp hsame with h | h
  · refine h ⟨?_, ?_⟩ <;> decide +kernel
  · obtain ⟨val, hval, -⟩ := h.mpr longArgument_overflow
    cases hval

end EcrToolkit.ModIoctl
