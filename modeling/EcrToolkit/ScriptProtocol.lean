import EcrToolkit.CleanUp
import EcrToolkit.OptionalArguments

/-!
# Which ioctls a run of `ecr.sh` issues

The options fix the ioctls and their order (`ioctlPlan`): `KMALLOC` first, if there is an
option that asks for it, and then one `CACHE`, one `MEMORY`, or fifteen times the two
timings.  Each call of `mod_ioctl` is recorded, with whether the module is loaded: if it is
not, the device cannot be opened and the script goes on without the request.

Whatever other runs do, and wherever Ctrl-C strikes, what the driver gets from a run is part of
that plan, in its order, after the `insmod` of the run has succeeded.  While the module stays
loaded it is the beginning of the plan, and all of it if the script removes the module itself;
and the module stays loaded unless another run removes it (`commands_ordered`).
-/
namespace EcrToolkit

open AtomicProgram TextTools Transitions

/-! ## From a number to the driver -/

namespace ModIoctl

/-- The request that `./mod_ioctl n` issues, if it comes to one. -/
def request (k : Kernel) (n : Nat) : Option (BitVec 32) :=
  match handling (main k [(Nat.repr n).toList] ⟨0, []⟩) with
  | .issued request => some request
  | .invalid | .exited _ => none

/-- **The request of a number** is the one of the driver, if the device can be opened. -/
theorem request_eq {k : Kernel} (hk : k.fd ≠ -1) {n : Nat} (hn : n < 8) :
    request k n = some (timingIoctl n) := by
  have hchoose : ∀ m < 8, choose 0 (Nat.repr m).toList = .issued (timingIoctl m) := by
    decide +kernel
  have hmain := handling_main hk (Nat.repr n).toList ⟨[], ⟨(0, 0), opened, rfl⟩⟩
  rw [request, hmain]
  exact congrArg (fun h => match h with
    | .issued request => some request
    | .invalid | .exited _ => none) (hchoose n hn)

/-- Without the device there is no request. -/
theorem request_of_closed {k : Kernel} (hk : k.fd = -1) (n : Nat) : request k n = none := by
  have hmain : main k [(Nat.repr n).toList] ⟨0, []⟩ = .error exitFailure
      ⟨k.openErrno, [.openDev "/dev/ECR",
        .perror "Could not open the IOCTL /dev/ECR" k.openErrno]⟩ := by
    have hopen : openDev k ⟨0, []⟩ = .ok k.fd ⟨k.openErrno, [.openDev "/dev/ECR"]⟩ := by
      show (if k.fd = -1 then (_ : Run Int) else _) _ = _
      rw [if_pos hk]
      rfl
    rw [main, bind_of_ok hopen, if_pos hk]
    rfl
  rw [request, hmain]
  rfl

end ModIoctl

namespace EcrSh

/-! ## The plan -/

/-- The numbers of the ioctls of a whole run with these options. -/
def ioctlPlan (o : Options) : List Nat :=
  (if o.kmalloc then [7] else []) ++
    if o.cache then [3]
    else if o.memory then [4]
    else (List.replicate 15 (if o.flush then [5, 6] else [1, 2])).flatten

/-- Which ioctls are left: none have been issued yet, or the module is inserted and these
are left, or there will be no more. -/
inductive Progress
  | before
  | measuring (left : List Nat)
  | done

/-- The commands in their order: `operand` is inserted, and then the plan is `plan`. -/
def Progress.next (operand : Option Line) (plan : List Nat) :
    Progress → (c : Command) → c.Res → Option Progress
  | .before, .insmod arg, r =>
    if arg = operand then some (if insmodStatus r = 1 then .done else .measuring plan) else none
  | .measuring (n :: ns), .modIoctl m, _ => if m = n then some (.measuring ns) else none
  | .measuring [], .rmmod _, _ => some .done
  | _, .insmod _, _ | _, .modIoctl _, _ | _, .rmmod _, _ => none
  | t, .idU, _ | t, .trapInt _, _ | t, .trapExit _, _ | t, .dmesg, _ | t, .read, _ => some t

/-- A command that neither issues an ioctl nor inserts or removes the module. -/
def Command.isPlain : Command → Bool
  | .insmod _ | .modIoctl _ | .rmmod _ => false
  | .idU | .trapInt _ | .trapExit _ | .dmesg | .read => true

/-- The commands that are possible. -/
inductive Progress.Moves (operand : Option Line) (plan : List Nat) :
    Progress → (c : Command) → c.Res → Progress → Prop
  | inserted : Moves operand plan .before (.insmod operand) true (.measuring plan)
  | refused : Moves operand plan .before (.insmod operand) false .done
  | issued (n : Nat) (ns : List Nat) (r : Unit) :
    Moves operand plan (.measuring (n :: ns)) (.modIoctl n) r (.measuring ns)
  | removed (arg : Option Line) (r : Unit) :
    Moves operand plan (.measuring []) (.rmmod arg) r .done
  | plain (t : Progress) {c : Command} (h : c.isPlain = true) (r : c.Res) :
    Moves operand plan t c r t

theorem Progress.moves_of_next {operand : Option Line} {plan : List Nat} {t t' : Progress}
    {c : Command} {r : c.Res} (h : t.next operand plan c r = some t') :
    t.Moves operand plan c r t' := by
  cases c with
  | idU | trapInt | trapExit | dmesg | read =>
    obtain rfl : t = t' := by
      rcases t with _ | (_ | _) | _ <;> exact Option.some.inj h
    exact .plain t rfl r
  | insmod arg =>
    rcases t with _ | (_ | _) | _ <;> try cases h
    obtain ⟨rfl, ht⟩ := Option.ite_none_right_eq_some.mp h
    cases ht
    -- the exit status decides
    cases (r : Bool) with
    | true => exact .inserted
    | false => exact .refused
  | modIoctl m =>
    rcases t with _ | (_ | ⟨n, ns⟩) | _ <;> try cases h
    obtain ⟨rfl, ht⟩ := Option.ite_none_right_eq_some.mp h
    cases ht
    exact .issued m ns r
  | rmmod arg =>
    rcases t with _ | (_ | _) | _ <;> cases h
    exact .removed arg r

/-- The script follows its plan. -/
abbrev ByPlan (operand : Option Line) (plan : List Nat) (t : Progress) (p : Shell Nat) : Prop :=
  Prog.Follows (Progress.next operand plan) (fun _ _ => True) t p

section
variable (operand : Option Line) (plan : List Nat)

theorem dmesg_follows (ns : List Nat) :
    Prog.Follows (Progress.next operand plan) (fun t _ => t = .measuring ns) (.measuring ns)
      dmesg :=
  Prog.follows_op (fun _ => .measuring ns) (fun _ => by cases ns <;> rfl) fun _ => rfl

theorem read_follows (ns : List Nat) :
    Prog.Follows (Progress.next operand plan) (fun t _ => t = .measuring ns) (.measuring ns) read :=
  Prog.follows_op (fun _ => .measuring ns) (fun _ => by cases ns <;> rfl) fun _ => rfl

/-- The parse functions read the log only. -/
theorem parse_follows (ns : List Nat) :
    Prog.Follows (Progress.next operand plan) (fun t _ => t = .measuring ns) (.measuring ns)
      parse := by
  refine (dmesg_follows operand plan ns).bind fun t _ ht => ?_
  subst ht
  exact (dmesg_follows operand plan ns).bind fun t _ ht => ht

theorem ioctl_follows (n : Nat) (ns : List Nat) :
    Prog.Follows (Progress.next operand plan) (fun t _ => t = .measuring ns) (.measuring (n :: ns))
      (modIoctl n) :=
  Prog.follows_op (fun _ => .measuring ns) (fun _ => if_pos rfl) fun _ => rfl

theorem parses_follow {γ : Type} (ns : List Nat) (bs : List γ) :
    Prog.Follows (Progress.next operand plan) (fun t _ => t = .measuring ns) (.measuring ns)
      (Prog.forEach bs fun _ => parse) := by
  induction bs with
  | nil => exact rfl
  | cons b bs ih =>
    refine (parse_follows operand plan ns).bind fun t _ ht => ?_
    subst ht
    exact ih

/-- Both ioctls of a turn of the loop. -/
theorem turn_follows (a b : Nat) (js : List String) (ns : List Nat) :
    Prog.Follows (Progress.next operand plan) (fun t _ => t = .measuring ns)
      (.measuring (a :: b :: ns))
      (do
        modIoctl a
        Prog.forEach js fun _ => parse
        modIoctl b
        Prog.forEach js fun _ => parse) := by
  refine (ioctl_follows operand plan a (b :: ns)).bind fun t _ ht => ?_
  subst ht
  refine (parses_follow operand plan (b :: ns) js).bind fun t _ ht => ?_
  subst ht
  refine (ioctl_follows operand plan b ns).bind fun t _ ht => ?_
  subst ht
  exact parses_follow operand plan ns js

/-- **The measurements** of the options. -/
theorem measurement_follows (o : Options) :
    Prog.Follows (Progress.next operand plan) (fun t _ => t = .measuring [])
      (.measuring (if o.cache then [3] else if o.memory then [4]
        else (List.replicate 15 (if o.flush then [5, 6] else [1, 2])).flatten))
      (measurement o) := by
  unfold measurement
  split
  · refine (ioctl_follows operand plan 3 []).bind fun t _ ht => ?_
    subst ht
    exact parses_follow operand plan [] addressOffsets
  split
  · refine (ioctl_follows operand plan 4 []).bind fun t _ ht => ?_
    subst ht
    exact Prog.follows_forFrom (t := fun _ => Progress.measuring [])
      (fun _ _ _ => parse_follows operand plan []) 0 10 ()
  · have hloop : ∀ (a b : Nat) (js : List String),
        Prog.Follows (Progress.next operand plan) (fun t _ => t = .measuring [])
          (.measuring (List.replicate 15 [a, b]).flatten)
          (Prog.forLoop 15 () fun _ _ => do
            modIoctl a
            Prog.forEach js fun _ => parse
            modIoctl b
            Prog.forEach js fun _ => parse) := fun a b js =>
      Prog.follows_forFrom (t := fun n => Progress.measuring (List.replicate n [a, b]).flatten)
        (fun n _ _ => turn_follows operand plan a b js (List.replicate n [a, b]).flatten) 0 15 ()
    unfold timingMeasurement
    cases o.flush
    case true | false => exact hloop _ _ _

theorem measure_byPlan (o : Options) (arg : Option Line) :
    ByPlan operand plan (.measuring (if o.cache then [3] else if o.memory then [4]
      else (List.replicate 15 (if o.flush then [5, 6] else [1, 2])).flatten)) (measure o arg) := by
  refine (measurement_follows operand plan o).bind fun t _ ht => ?_
  subst ht
  exact Prog.follows_op (fun _ => .done) (fun _ => rfl) fun _ => trivial

theorem allocate_byPlan (o : Options) (arg : Option Line) :
    ByPlan operand plan (.measuring (ioctlPlan o)) (allocate o arg) := by
  unfold allocate ioctlPlan
  split
  case isFalse => exact measure_byPlan operand plan o arg
  case isTrue =>
    rw [List.singleton_append]
    refine (ioctl_follows operand plan 7 _).bind fun t _ ht => ?_
    subst ht
    refine (dmesg_follows operand plan _).bind fun t log ht => ?_
    subst ht
    cases allocationStep log with
    | none => exact trivial
    | some dm =>
      refine (read_follows operand plan _).bind fun t _ ht => ?_
      subst ht
      exact measure_byPlan operand plan o arg

end

/-- The numbers of the ioctls that the command line asks for. -/
def planOf (enhanced : Bool) (args : List Line) : List Nat :=
  match parseArguments enhanced args with
  | .run o _ => ioctlPlan o
  | .refused | .help => []

/-- **The script follows the plan of its command line.** -/
theorem main_byPlan (enhanced : Bool) (args : List Line) :
    ByPlan (parseArguments enhanced args).operand (planOf enhanced args) .before
      (main enhanced args) := by
  refine Prog.follows_op (fun _ => .before) (fun _ => rfl) fun (uid : Nat) => ?_
  show ByPlan _ _ .before (if uid ≠ 0 then _ else _)
  split
  · exact trivial
  refine Prog.follows_op (fun _ => .before) (fun _ => rfl) fun _ => ?_
  refine Prog.follows_op (fun _ => .before) (fun _ => rfl) fun _ => ?_
  show ByPlan _ _ .before (parameters enhanced args)
  unfold parameters planOf
  cases parseArguments enhanced args with
  | refused | help => exact trivial
  | run o ps =>
    show ByPlan ps.head? (ioctlPlan o) .before (insert o ps.head?)
    refine Prog.follows_op
      (fun r => if insmodStatus r = 1 then .done else .measuring (ioctlPlan o))
      (fun _ => if_pos rfl) fun r => ?_
    show ByPlan _ _ _ (if insmodStatus r = 1 then _ else _)
    cases (r : Bool) with
    | true => exact allocate_byPlan _ _ o ps.head?
    | false => exact trivial

/-! ## What a run has issued -/

section
variable {ι : Type} [DecidableEq ι]

/-- The number of an ioctl of run `i`. -/
def Event.ioctlOf (i : ι) : Event ι → Option Nat
  | .performed j _ (.modIoctl n) => if j = i then some n else none
  | _ => none

/-- The numbers of the ioctls of run `i`, in their order. -/
def ioctlsOf (i : ι) (evs : List (Event ι)) : List Nat := evs.filterMap (Event.ioctlOf i)

/-- The ioctls issued fit the progress. -/
def Progress.Fits (plan issued : List Nat) (inserted : Prop) : Progress → Prop
  | .before => issued = []
  | .measuring left => inserted ∧ issued ++ left = plan
  | .done => issued <+: plan ∧ (issued ≠ [] → inserted)

/-- Run `i` after the events `evs`. -/
structure Process.Keeps (operand : Option Line) (plan : List Nat) (i : ι) (evs : List (Event ι))
    (p : Process) (t : Progress) : Prop where
  script : ∀ q, p.activity = .running false q → ByPlan operand plan t q
  handler : ∀ q, p.activity = .running true q →
    Prog.Safe (fun _ _ => True) (fun c => ∃ arg, c = .rmmod arg) q
  fits : t.Fits plan (ioctlsOf i evs) (∃ w, .inserted i w ∈ evs)
  removed : ∀ arg, .performed i false (.rmmod arg) ∈ evs → t = .done ∧ ioctlsOf i evs = plan

variable {operand : Option Line} {plan : List Nat} {i : ι} {evs es : List (Event ι)}
  {p : Process} {t : Progress}

theorem ioctlsOf_append (i : ι) (evs es : List (Event ι)) :
    ioctlsOf i (evs ++ es) = ioctlsOf i evs ++ ioctlsOf i es := List.filterMap_append

theorem ioctlsOf_effect (file : Line) (s : State ι) (i j : ι) (c : Command) (r : c.Res) :
    ioctlsOf i (s.effect file j c r) = [] := by
  refine List.filterMap_eq_nil_iff.mpr fun e he => ?_
  rcases mem_effect he with ⟨w, rfl, -⟩ | ⟨owner, rfl, -⟩
  · rfl
  · rfl

/-- The events of a command have its number, if it is an ioctl. -/
theorem ioctlsOf_events (file : Line) (s : State ι) (i j : ι) (b : Bool) (c : Command)
    (r : c.Res) :
    ioctlsOf i (s.events file j b c r) = (Event.ioctlOf i (.performed j b c)).toList := by
  have heffect := ioctlsOf_effect file s i j c r
  rw [ioctlsOf] at heffect ⊢
  rw [State.events, List.filterMap_cons, heffect]
  cases Event.ioctlOf i (.performed j b c) <;> rfl

theorem ioctlOf_of_ne {i j : ι} (h : i ≠ j) (b : Bool) (c : Command) :
    Event.ioctlOf i (.performed j b c) = none := by
  cases c
  case modIoctl n => exact if_neg (Ne.symm h)
  all_goals rfl

theorem Progress.Fits.prefix {issued : List Nat} {inserted : Prop}
    (h : t.Fits plan issued inserted) : issued <+: plan ∧ (issued ≠ [] → inserted) := by
  cases t with
  | before =>
    obtain rfl : issued = [] := h
    exact ⟨List.nil_prefix, fun hne => absurd rfl hne⟩
  | measuring left => exact ⟨⟨left, h.2⟩, fun _ => h.1⟩
  | done => exact h

theorem Progress.Fits.mono {issued : List Nat} {inserted inserted' : Prop}
    (h : t.Fits plan issued inserted) (himp : inserted → inserted') :
    t.Fits plan issued inserted' := by
  cases t with
  | before => exact h
  | measuring left => exact ⟨himp h.1, h.2⟩
  | done => exact ⟨h.1, fun hne => himp (h.2 hne)⟩

/-- A step in which nothing of run `i` is seen but commands of its handlers. -/
theorem Process.Keeps.silent (h : p.Keeps operand plan i evs t) {p' : Process}
    (hscript : ∀ q, p'.activity = .running false q → p.activity = .running false q)
    (hhandler : ∀ q, p'.activity = .running true q →
      Prog.Safe (fun _ _ => True) (fun c => ∃ arg, c = .rmmod arg) q)
    (hnone : ioctlsOf i es = []) (hperformed : ∀ c, .performed i false c ∉ es) :
    p'.Keeps operand plan i (evs ++ es) t where
  script q hq := h.script q (hscript q hq)
  handler := hhandler
  fits := by
    rw [ioctlsOf_append, hnone, List.append_nil]
    exact h.fits.mono fun ⟨w, hw⟩ => ⟨w, List.mem_append_left _ hw⟩
  removed arg harg := by
    rw [ioctlsOf_append, hnone, List.append_nil]
    exact h.removed arg ((List.mem_append.mp harg).resolve_right (hperformed _))

theorem removeAndExit_only (arg : Option Line) :
    Prog.Safe (fun _ _ => True) (fun c => ∃ arg, c = .rmmod arg) (removeAndExit arg) :=
  (removeAndExit_safe arg).mono (fun _ _ h => h) fun _ h => ⟨arg, h⟩

omit [DecidableEq ι] in
/-- When the shell exits, a handler runs or nothing. -/
theorem Process.leave_activity (p : Process) :
    (∃ arg, p.leave.activity = .running true (removeAndExit arg)) ∨
      p.leave.activity = .exited := by
  unfold Process.leave
  split
  case h_1 arg _ => exact Or.inl ⟨arg, rfl⟩
  case h_2 => exact Or.inr rfl

omit [DecidableEq ι] in
theorem Process.interrupt_activity (p : Process) :
    (∃ arg, p.interrupt.activity = .running true (removeAndExit arg)) ∨
      p.interrupt.activity = .exited := by
  unfold Process.interrupt
  split
  case h_1 arg _ => exact Or.inl ⟨arg, rfl⟩
  case h_2 => exact p.leave_activity

/-- The script has come to its end, or has been interrupted. -/
theorem Process.Keeps.leaves (h : p.Keeps operand plan i evs t) {p' : Process}
    (hp' : (∃ arg, p'.activity = .running true (removeAndExit arg)) ∨ p'.activity = .exited) :
    p'.Keeps operand plan i evs t := by
  have hend : p'.Keeps operand plan i (evs ++ []) t := by
    refine h.silent (fun q hq => ?_) (fun q hq => ?_) rfl fun c => List.not_mem_nil
    · rcases hp' with ⟨arg, ha⟩ | ha
      · cases ha.symm.trans hq
      · cases ha.symm.trans hq
    · rcases hp' with ⟨arg, ha⟩ | ha
      · cases ha.symm.trans hq
        exact removeAndExit_only arg
      · cases ha.symm.trans hq
  rwa [List.append_nil] at hend

/-- **A command of the script** is one of the plan. -/
theorem Process.Keeps.perform (h : p.Keeps operand plan i evs t) (file : Line) (s : State ι)
    {c : Command} {k : c.Res → Shell Nat} (hp : p.activity = .running false (.op c k))
    (answer : (c : Command) → c.Res) {r : c.Res} (hr : r = s.answer file c (answer c)) :
    ∃ t', t.Moves operand plan c r t' ∧
      (p.next false c (k r)).Keeps operand plan i (evs ++ s.events file i false c r) t' := by
  obtain ⟨t', ht', hk⟩ := (h.script _ hp).step r
  have hactivity : (p.next false c (k r)).activity = .running false (k r) := by
    cases c <;> rfl
  have hissued : ioctlsOf i (evs ++ s.events file i false c r) =
      ioctlsOf i evs ++ (Event.ioctlOf i (.performed i false c)).toList := by
    rw [ioctlsOf_append, ioctlsOf_events]
  have hmore : (∃ w, .inserted i w ∈ evs) →
      ∃ w, .inserted i w ∈ evs ++ s.events file i false c r :=
    fun ⟨w, hw⟩ => ⟨w, List.mem_append_left _ hw⟩
  have hbefore : ∀ arg, c ≠ .rmmod arg → .performed i false (.rmmod arg) ∈
      evs ++ s.events file i false c r → t = .done ∧ ioctlsOf i evs = plan := by
    intro arg hne harg
    refine h.removed arg ((List.mem_append.mp harg).resolve_right fun hin => ?_)
    exact hne (performed_mem_events.mp hin).2.2.symm
  have hfits := h.fits
  have hmoves := Progress.moves_of_next ht'
  refine ⟨t', hmoves, fun q hq => ?_, fun q hq => ?_, ?_, fun arg harg => ?_⟩
  · cases hactivity.symm.trans hq
    exact hk
  · cases hactivity.symm.trans hq
  · rw [hissued]
    cases hmoves with
    | inserted =>
      have hnil : ioctlsOf i evs = [] := hfits
      -- only a file that is named has been inserted
      cases operand with
      | none => cases hr
      | some w =>
        refine ⟨⟨w, List.mem_append_right _ ?_⟩, by rw [hnil]; rfl⟩
        exact List.mem_cons_of_mem _ List.mem_cons_self
    | refused =>
      have hnil : ioctlsOf i evs = [] := hfits
      rw [hnil]
      exact ⟨List.nil_prefix, fun hne => absurd rfl hne⟩
    | issued n ns r =>
      refine ⟨hmore hfits.1, ?_⟩
      have hnumber : (Event.ioctlOf i (.performed i false (.modIoctl n))).toList = [n] := by
        rw [Event.ioctlOf, if_pos rfl]
        rfl
      rw [hnumber, List.append_assoc]
      exact hfits.2
    | removed arg r =>
      obtain ⟨hin, hall⟩ := hfits
      rw [List.append_nil] at hall
      refine ⟨?_, fun _ => hmore hin⟩
      rw [hall]
      exact (List.append_nil plan).symm ▸ List.prefix_refl _
    | plain t hc r =>
      have hnone : Event.ioctlOf i (.performed i false c) = none := by
        cases c <;> first | rfl | cases hc
      rw [hnone]
      exact (List.append_nil (ioctlsOf i evs)).symm ▸ hfits.mono hmore
  · rw [hissued]
    cases hmoves with
    | inserted => cases (hbefore arg (by intro h; cases h) harg).1
    | refused => cases (hbefore arg (by intro h; cases h) harg).1
    | issued n ns r => cases (hbefore arg (by intro h; cases h) harg).1
    | removed arg r =>
      obtain ⟨-, hall⟩ := hfits
      exact ⟨rfl, hall⟩
    | plain t hc r =>
      have hne : ∀ arg, c ≠ .rmmod arg := by
        rintro arg rfl
        cases hc
      have hnone : Event.ioctlOf i (.performed i false c) = none := by
        cases c <;> first | rfl | cases hc
      rw [hnone]
      exact (List.append_nil (ioctlsOf i evs)).symm ▸ hbefore arg (hne arg) harg

end

/-! ## The calls on record -/

/-- A call of `mod_ioctl`, and whether the module is loaded when it opens the device. -/
structure IoctlCall (ι : Type) where
  run : ι
  number : Nat
  loaded : Bool

section
variable {ι : Type}

/-- The call that a step makes. -/
def ioctlMade (s : State ι) : Action ι → List (IoctlCall ι)
  | .proceed i _ =>
    match (s.run i).command with
    | some (.modIoctl n) => [⟨i, n, s.loaded.isSome⟩]
    | _ => []
  | .interrupt _ => []

variable [DecidableEq ι]

/-- The runs with their calls on record. -/
def ioctlSystem (file : Line) : System (State ι) (Action ι) (Event ι ⊕ IoctlCall ι) :=
  (system file).recording ioctlMade

omit [DecidableEq ι] in
/-- What an observer sees. -/
def eventsIn (evs : List (Event ι ⊕ IoctlCall ι)) : List (Event ι) := evs.filterMap Sum.getLeft?

/-- The calls of run `i`. -/
def callsOf (i : ι) (evs : List (Event ι ⊕ IoctlCall ι)) : List (IoctlCall ι) :=
  (evs.filterMap Sum.getRight?).filter (·.run = i)

omit [DecidableEq ι] in
theorem mem_eventsIn {evs : List (Event ι ⊕ IoctlCall ι)} {e : Event ι} :
    e ∈ eventsIn evs ↔ .inl e ∈ evs := System.mem_left

omit [DecidableEq ι] in
theorem eventsIn_append (evs : List (Event ι ⊕ IoctlCall ι)) (es : List (Event ι))
    (cs : List (IoctlCall ι)) :
    eventsIn (evs ++ (es.map .inl ++ cs.map .inr)) = eventsIn evs ++ es := by
  rw [eventsIn, List.filterMap_append, System.left_recorded, eventsIn]

theorem callsOf_append (i : ι) (evs : List (Event ι ⊕ IoctlCall ι)) (es : List (Event ι))
    (cs : List (IoctlCall ι)) :
    callsOf i (evs ++ (es.map .inl ++ cs.map .inr)) =
      callsOf i evs ++ cs.filter (·.run = i) := by
  rw [callsOf, List.filterMap_append, System.right_recorded, List.filter_append, callsOf]

/-- Another run removes the instance of run `i`. -/
def TakenAway (i : ι) (evs : List (Event ι)) : Prop := ∃ j, j ≠ i ∧ .removed j i ∈ evs

/-- **Run `i` after what is on record**: its instance of the module is loaded while the script
measures, or another run has removed it. -/
structure Measures (file : Line) (operand : Option Line) (plan : List Nat) (i : ι)
    (evs : List (Event ι ⊕ IoctlCall ι)) (s : State ι) (t : Progress) : Prop where
  keeps : (s.run i).Keeps operand plan i (eventsIn evs) t
  loaded : operand = some file → ∀ q, (s.run i).activity = .running false q →
    ∀ left, t = .measuring left → s.loaded = some i ∨ TakenAway i (eventsIn evs)
  numbers : (callsOf i evs).map (·.number) = ioctlsOf i (eventsIn evs)
  found : operand = some file →
    ∀ c ∈ callsOf i evs, c.loaded = true ∨ TakenAway i (eventsIn evs)

variable {file : Line} {operand : Option Line} {plan : List Nat} {i j : ι} {s s' : State ι}
  {t t' : Progress} {evs : List (Event ι ⊕ IoctlCall ι)} {es : List (Event ι)}

omit [DecidableEq ι] in
theorem TakenAway.mono {evs es : List (Event ι)} (h : TakenAway i evs) :
    TakenAway i (evs ++ es) := by
  obtain ⟨j, hj, hmem⟩ := h
  exact ⟨j, hj, List.mem_append_left es hmem⟩

omit [DecidableEq ι] in
/-- **An instance stays** until a command removes it. -/
theorem loaded_or_removed (hl : s.loaded = some i) (b : Bool) {c : Command}
    (answer : (c : Command) → c.Res) {r : c.Res} (hr : r = s.answer file c (answer c)) :
    s.loadedAfter file j c r = some i ∨ .removed j i ∈ s.events file j b c r := by
  cases c with
  | insmod arg =>
    -- it is refused while the module is loaded
    have hrefused : (r && arg = some file) = false := by
      rw [hr]
      cases arg with
      | none => rfl
      | some w =>
        by_cases hw : w = file
        · simp [State.answer, hw, hl]
        · simp [hw]
    refine Or.inl ?_
    rw [State.loadedAfter, hrefused]
    exact hl
  | rmmod arg =>
    by_cases harg : arg = some file
    · refine Or.inr (List.mem_cons_of_mem _ ?_)
      simp only [State.effect, hl, if_pos harg, List.mem_singleton]
    · exact Or.inl ((if_neg harg).trans hl)
  | idU | trapInt | trapExit | modIoctl | dmesg | read => exact Or.inl hl

/-- A step in which run `i` does not go on with its script. -/
theorem Measures.silent (h : Measures file operand plan i evs s t)
    (hkeeps : (s'.run i).Keeps operand plan i (eventsIn evs ++ es) t)
    (hloaded : ∀ q, (s'.run i).activity = .running false q → s'.run i = s.run i ∧
      (s.loaded = some i → s'.loaded = some i ∨ TakenAway i es))
    (hnone : ioctlsOf i es = []) {cs : List (IoctlCall ι)} (hcs : ∀ c ∈ cs, c.run ≠ i) :
    Measures file operand plan i (evs ++ (es.map .inl ++ cs.map .inr)) s' t := by
  have hcalls : callsOf i (evs ++ (es.map .inl ++ cs.map .inr)) = callsOf i evs := by
    rw [callsOf_append, List.filter_eq_nil_iff.mpr fun c hc => by simpa using hcs c hc,
      List.append_nil]
  refine ⟨?_, fun hop q hq left ht => ?_, ?_, fun hop c hc => ?_⟩
  · rwa [eventsIn_append]
  · rw [eventsIn_append]
    obtain ⟨hrun, hstays⟩ := hloaded q hq
    rcases h.loaded hop q (hrun ▸ hq) left ht with hl | htaken
    · refine (hstays hl).imp_right fun ⟨j, hj, hmem⟩ => ?_
      exact ⟨j, hj, List.mem_append_right _ hmem⟩
    · exact Or.inr htaken.mono
  · rw [hcalls, eventsIn_append, ioctlsOf_append, hnone, List.append_nil]
    exact h.numbers
  · rw [hcalls] at hc
    rw [eventsIn_append]
    exact (h.found hop c hc).imp_right (·.mono)

/-- A command of the script of run `i`. -/
theorem Measures.perform (h : Measures file operand plan i evs s t) {c : Command}
    {k : c.Res → Shell Nat} (hp : (s.run i).activity = .running false (.op c k))
    (answer : (c : Command) → c.Res) {r : c.Res} (hr : r = s.answer file c (answer c)) :
    ∃ t', Measures file operand plan i (evs ++ ((s.events file i false c r).map .inl ++
      (ioctlMade s (.proceed i answer)).map .inr)) (s.execute file i false c k r) t' := by
  obtain ⟨t', hmoves, hkeeps⟩ := h.keeps.perform file s hp answer hr
  have hcommand : (s.run i).command = some c := by rw [Process.command, hp]
  have hbefore := fun hop left ht => h.loaded hop _ hp left ht
  refine ⟨t', ?_, fun hop q hq left ht => ?_, ?_, fun hop x hx => ?_⟩
  · rw [eventsIn_append, execute_run_self]
    exact hkeeps
  · rw [eventsIn_append, execute_loaded]
    cases hmoves with
    | inserted =>
      refine Or.inl (if_pos ?_)
      rw [hop]
      simp
    | refused | removed => cases ht
    | issued n ns r => exact (hbefore hop _ rfl).imp_right (·.mono)
    | plain t hc r =>
      have hsame : s.loadedAfter file i c r = s.loaded := by
        cases c <;> first | rfl | cases hc
      rw [hsame]
      exact (hbefore hop left ht).imp_right (·.mono)
  · rw [callsOf_append, eventsIn_append, List.map_append, ioctlsOf_append, h.numbers,
      ioctlsOf_events, ioctlMade, hcommand]
    cases c
    case modIoctl n => simp [Event.ioctlOf]
    all_goals rfl
  · rw [callsOf_append] at hx
    rw [eventsIn_append]
    rcases List.mem_append.mp hx with hx | hx
    · exact (h.found hop x hx).imp_right (·.mono)
    · have hmem := (List.mem_filter.mp hx).1
      rw [ioctlMade, hcommand] at hmem
      cases hmoves with
      | issued n ns r =>
        obtain rfl := List.mem_singleton.mp hmem
        refine (hbefore hop _ rfl).imp (fun hl => ?_) (·.mono)
        show s.loaded.isSome = true
        rw [hl]
        rfl
      | inserted | refused | removed => cases hmem
      | plain t hc r =>
        cases c
        case modIoctl => cases hc
        all_goals cases hmem

/-- **One step**, of run `i` or of another one. -/
theorem Measures.step (h : Measures file operand plan i evs s t) {a : Action ι}
    (hs : EcrSh.step file s a = some (es, s')) :
    ∃ t', Measures file operand plan i
      (evs ++ (es.map .inl ++ (ioctlMade s a).map .inr)) s' t' := by
  have hmade : ∀ j answer, ∀ c ∈ ioctlMade s (.proceed j answer), c.run = j := by
    intro j answer c hc
    simp only [ioctlMade] at hc
    split at hc
    case h_1 n _ =>
      obtain rfl := List.mem_singleton.mp hc
      rfl
    case h_2 => cases hc
  -- the run is not at a command of its script any more
  have hends : ∀ {p : Process} {cs : List (IoctlCall ι)}, (∀ c ∈ cs, c.run ≠ i) →
      ((∃ arg, p.activity = .running true (removeAndExit arg)) ∨ p.activity = .exited) →
      Measures file operand plan i (evs ++ (([] : List (Event ι)).map .inl ++ cs.map .inr))
        (s.setRun i p) t := by
    intro p cs hcs hp
    refine h.silent ?_ (fun q hq => ?_) rfl hcs
    · rw [List.append_nil, setRun_run_self]
      exact h.keeps.leaves hp
    · rw [setRun_run_self] at hq
      rcases hp with ⟨arg, ha⟩ | ha
      · cases ha.symm.trans hq
      · cases ha.symm.trans hq
  have hothers : ∀ {j : ι} {p : Process} {cs : List (IoctlCall ι)}, i ≠ j → (∀ c ∈ cs, c.run = j) →
      Measures file operand plan i (evs ++ (([] : List (Event ι)).map .inl ++ cs.map .inr))
        (s.setRun j p) t := by
    intro j p cs hij hcs
    have hrun := setRun_run_of_ne s hij p
    refine h.silent ?_ (fun q hq => ⟨hrun, fun hl => Or.inl hl⟩) rfl
      fun c hc hci => hij (hci.symm.trans (hcs c hc))
    rw [List.append_nil, hrun]
    exact h.keeps
  cases stepped_of_step hs with
  | interrupted j hj =>
    by_cases hij : i = j
    · subst hij
      exact ⟨t, hends nofun (s.run i).interrupt_activity⟩
    · exact ⟨t, hothers hij nofun⟩
  | left j answer hj =>
    by_cases hij : i = j
    · subst hij
      have hnone : ioctlMade s (.proceed i answer) = [] := by rw [ioctlMade, Process.command, hj]
      exact ⟨t, hends (hnone ▸ nofun) (s.run i).leave_activity⟩
    · exact ⟨t, hothers hij (hmade j answer)⟩
  | @performed j answer inHandler c k hj r hr =>
    by_cases hij : i = j
    · subst hij
      cases inHandler with
      | false => exact h.perform hj answer hr
      | true =>
        -- a handler issues no ioctl
        obtain ⟨⟨arg, rfl⟩, hk⟩ := (h.keeps.handler _ hj).step (r := r) trivial
        have hnone : ioctlMade s (.proceed i answer) = [] := by
          rw [ioctlMade, Process.command, hj]
        have hquiet : ioctlsOf i (s.events file i true (.rmmod arg) r) = [] := by
          rw [ioctlsOf_events]
          rfl
        refine ⟨t, h.silent ?_ (fun q hq => ?_) hquiet (hnone ▸ nofun)⟩
        · rw [execute_run_self]
          refine h.keeps.silent (fun q hq => ?_) (fun q hq => ?_) hquiet fun c hc => ?_
          · cases hq
          · cases hq
            exact hk
          · cases (performed_mem_events.mp hc).2.1
        · rw [execute_run_self] at hq
          cases hq
    · have hrun := execute_run_of_ne file s hij inHandler c k r
      have hquiet : ioctlsOf i (s.events file j inHandler c r) = [] := by
        rw [ioctlsOf_events, ioctlOf_of_ne hij]
        rfl
      refine ⟨t, h.silent ?_ (fun q hq => ⟨hrun, fun hl => ?_⟩) hquiet
        fun c hc hci => hij (hci.symm.trans (hmade j answer c hc))⟩
      · rw [hrun]
        exact h.keeps.silent (fun q hq => hq) h.keeps.handler hquiet fun c hc =>
          hij (performed_mem_events.mp hc).1
      · rw [execute_loaded]
        exact (loaded_or_removed hl inHandler answer hr).imp_right fun hmem =>
          ⟨j, Ne.symm hij, hmem⟩

end

/-! ## The options -/

/-- What the options ask for needs the buffer. -/
def NeedsBuffer (o : Options) : Prop :=
  o.cache = true ∨ o.memory = true ∨ o.flush = true → o.kmalloc = true

instance (o : Options) : Decidable (NeedsBuffer o) := inferInstanceAs (Decidable (_ → _))

theorem needsBuffer_of_parseOptions {ws : List Line} {o o' : Options} {ps : List Line}
    (h : parseOptions o ws = some (o', ps)) (ho : NeedsBuffer o) : NeedsBuffer o' := by
  induction ws generalizing o with
  | nil =>
    cases h
    exact ho
  | cons w ws ih =>
    rw [parseOptions] at h
    split at h
    · exact ih h fun _ => rfl
    split at h
    · exact ih h ho
    split at h
    · exact ih h fun _ => rfl
    split at h
    · exact ih h fun _ => rfl
    split at h
    · exact ih h fun _ => rfl
    split at h
    · cases h
    split at h
    · cases h
      exact ho
    · exact ih h ho

theorem needsBuffer_of_parseArguments {enhanced : Bool} {args : List Line} {o : Options}
    {ps : List Line} (h : parseArguments enhanced args = .run o ps) : NeedsBuffer o := by
  unfold parseArguments at h
  split at h
  · cases h
  split at h
  · cases h
  next hparse =>
    cases h
    exact needsBuffer_of_parseOptions hparse fun h => by rcases h with h | h | h <;> cases h

/-- Everything but the two standard timings comes after `KMALLOC`. -/
theorem ioctlPlan_head {o : Options} (h : NeedsBuffer o) :
    (∀ n ∈ ioctlPlan o, n < 8) ∧
      ((∀ n ∈ ioctlPlan o, n = 1 ∨ n = 2) ∨ (ioctlPlan o).head? = some 7) := by
  have hall : ∀ kmalloc csv flush cache memory : Bool,
      NeedsBuffer ⟨kmalloc, csv, flush, cache, memory⟩ →
        (∀ n ∈ ioctlPlan ⟨kmalloc, csv, flush, cache, memory⟩, n < 8) ∧
          ((∀ n ∈ ioctlPlan ⟨kmalloc, csv, flush, cache, memory⟩, n = 1 ∨ n = 2) ∨
            (ioctlPlan ⟨kmalloc, csv, flush, cache, memory⟩).head? = some 7) := by
    decide +kernel
  exact hall o.kmalloc o.csv o.flush o.cache o.memory h

theorem planOf_head (enhanced : Bool) (args : List Line) :
    (∀ n ∈ planOf enhanced args, n < 8) ∧
      ((∀ n ∈ planOf enhanced args, n = 1 ∨ n = 2) ∨ (planOf enhanced args).head? = some 7) := by
  unfold planOf
  split
  case h_1 o ps hparse => exact ioctlPlan_head (needsBuffer_of_parseArguments hparse)
  case h_2 | h_3 =>
    exact ⟨fun n hn => absurd hn List.not_mem_nil, Or.inl fun n hn => absurd hn List.not_mem_nil⟩

/-! ## What the driver gets -/

section
variable {ι : Type} [DecidableEq ι] {enhanced : Bool} {args : ι → List Word} {file : Line}
  {evs : List (Event ι ⊕ IoctlCall ι)} {s : State ι}

/-- The requests that the command line of run `i` asks for. -/
def requestPlan (enhanced : Bool) (args : List Word) : List (BitVec 32) :=
  (planOf enhanced (args.map (·.chars))).map timingIoctl

theorem measures_of_run (h : (ioctlSystem file).Run System.Any (initial enhanced args) evs s)
    (i : ι) : ∃ t, Measures file (operandOf enhanced (args i))
      (planOf enhanced ((args i).map (·.chars))) i evs s t := by
  refine h.invariant (I := fun evs s => ∃ t, Measures file (operandOf enhanced (args i))
    (planOf enhanced ((args i).map (·.chars))) i evs s t) ?_ ?_
  · refine ⟨.before, ⟨fun q hq => ?_, fun q hq => ?_, rfl, fun arg harg => ?_⟩,
      fun _ _ _ _ hleft => (by cases hleft), rfl, fun _ c hc => (by cases hc)⟩
    · cases hq
      exact main_byPlan enhanced _
    · cases hq
    · cases harg
  · rintro evs s a es s' ⟨t, ht⟩ - hs
    obtain ⟨es₀, hs₀, rfl⟩ := System.recording_step hs
    exact ht.step hs₀

/-- The requests of run `i`, in their order; `k n` is the kernel when the run calls `mod_ioctl`
for the `n`th time. -/
def requestsOf (k : Nat → ModIoctl.Kernel) (i : ι) (evs : List (Event ι ⊕ IoctlCall ι)) :
    List (BitVec 32) :=
  (callsOf i evs).zipIdx.filterMap fun c => ModIoctl.request (k c.2) c.1.number

/-- The device can be opened while the module is loaded, and only then. -/
def Opens (k : Nat → ModIoctl.Kernel) (i : ι) (evs : List (Event ι ⊕ IoctlCall ι)) : Prop :=
  ∀ c ∈ (callsOf i evs).zipIdx, (k c.2).fd = -1 ↔ c.1.loaded = false

/-- **The driver gets** the requests of the calls that find the module loaded. -/
theorem requestsOf_eq {k : Nat → ModIoctl.Kernel} {i : ι} (hk : Opens k i evs)
    (h : ∀ c ∈ callsOf i evs, c.number < 8) : requestsOf k i evs =
      ((callsOf i evs).filter (·.loaded)).map fun c => timingIoctl c.number := by
  rw [requestsOf]
  rw [Opens] at hk
  generalize callsOf i evs = cs at hk h
  have hall : ∀ m, (∀ c ∈ cs.zipIdx m, (k c.2).fd = -1 ↔ c.1.loaded = false) →
      (cs.zipIdx m).filterMap (fun c => ModIoctl.request (k c.2) c.1.number) =
        (cs.filter (·.loaded)).map fun c => timingIoctl c.number := by
    clear hk
    induction cs with
    | nil => exact fun _ _ => rfl
    | cons c cs ih =>
      intro m hk
      obtain ⟨hc, hcs⟩ := List.forall_mem_cons.mp h
      rw [List.zipIdx_cons] at hk ⊢
      obtain ⟨hopen, hopens⟩ := List.forall_mem_cons.mp hk
      cases hl : c.loaded with
      | true =>
        have hfd : (k m).fd ≠ -1 := fun hfd => Bool.noConfusion (hl.symm.trans (hopen.mp hfd))
        rw [List.filter_cons_of_pos hl, List.map_cons, ← ih hcs (m + 1) hopens]
        exact List.filterMap_cons_some (ModIoctl.request_eq hfd hc)
      | false =>
        rw [List.filter_cons_of_neg (by simp [hl]), ← ih hcs (m + 1) hopens]
        exact List.filterMap_cons_none (ModIoctl.request_of_closed (hopen.mpr hl) _)
  exact hall 0 hk

/-- **The ioctls come in their order**, in every run of the script, whatever the other runs do
and wherever it is interrupted.  What the driver gets is part of what the options ask for, in
that order and after a successful `insmod`.  If the module is loaded at each call of `mod_ioctl`
it is the beginning of what they ask for, and all of it, if the script removes the module itself;
and nothing but the two standard timings comes without a `KMALLOC` before it.  It is loaded at
each call of a run that inserts it, if no other run removes the instance. -/
theorem commands_ordered (h : (ioctlSystem file).Run System.Any (initial enhanced args) evs s)
    (i : ι) {k : Nat → ModIoctl.Kernel} (hk : Opens k i evs) :
    List.Sublist (requestsOf k i evs) (requestPlan enhanced (args i)) ∧
    (requestsOf k i evs ≠ [] → ∃ w, .inl (.inserted i w) ∈ evs) ∧
    ((∀ c ∈ callsOf i evs, c.loaded = true) →
      requestsOf k i evs <+: requestPlan enhanced (args i) ∧
      (∀ arg, .inl (.performed i false (.rmmod arg)) ∈ evs →
        requestsOf k i evs = requestPlan enhanced (args i)) ∧
      ∀ cmd ∈ requestsOf k i evs, cmd ≠ timingIoctlWall → cmd ≠ timingIoctlThread →
        (requestsOf k i evs).head? = some timingIoctlKmalloc) ∧
    (operandOf enhanced (args i) = some file → (∀ j, j ≠ i → .inl (.removed j i) ∉ evs) →
      ∀ c ∈ callsOf i evs, c.loaded = true) := by
  obtain ⟨t, ht⟩ := measures_of_run h i
  obtain ⟨hpre, hinserted⟩ := ht.keeps.fits.prefix
  obtain ⟨hsmall, hhead⟩ := planOf_head enhanced ((args i).map (·.chars))
  have hnumbers := ht.numbers
  have hnumber : ∀ c ∈ callsOf i evs, c.number ∈ ioctlsOf i (eventsIn evs) := fun c hc => by
    rw [← hnumbers]
    exact List.mem_map_of_mem hc
  have heq := requestsOf_eq hk fun c hc => hsmall _ (hpre.subset (hnumber c hc))
  have hissued : (callsOf i evs).map (fun c => timingIoctl c.number) =
      (ioctlsOf i (eventsIn evs)).map timingIoctl := by
    rw [← hnumbers, List.map_map]
    rfl
  refine ⟨?_, fun hne => ?_, fun hloaded => ?_, fun hop hkept c hc => ?_⟩
  · have hfilter := (List.filter_sublist (p := (·.loaded)) (l := callsOf i evs)).map
      fun c => timingIoctl c.number
    rw [heq]
    rw [hissued] at hfilter
    exact hfilter.trans (hpre.map timingIoctl).sublist
  · have hsome : ioctlsOf i (eventsIn evs) ≠ [] := by
      intro hnil
      rw [hnil] at hnumbers
      rw [heq, List.map_eq_nil_iff.mp hnumbers] at hne
      exact hne rfl
    obtain ⟨w, hw⟩ := hinserted hsome
    exact ⟨w, mem_eventsIn.mp hw⟩
  · rw [heq, List.filter_eq_self.mpr hloaded, hissued]
    refine ⟨hpre.map timingIoctl, fun arg harg => ?_, fun cmd hcmd hwall hthread => ?_⟩
    · rw [(ht.keeps.removed arg (mem_eventsIn.mpr harg)).2]
      rfl
    · obtain ⟨n, hn, rfl⟩ := List.mem_map.mp hcmd
      rcases hhead with hstandard | hfirst
      · rcases hstandard n (hpre.subset hn) with rfl | rfl
        · exact absurd rfl hwall
        · exact absurd rfl hthread
      · -- the first of a beginning is the first of all
        obtain ⟨m, ns, hfew⟩ := List.exists_cons_of_ne_nil (List.ne_nil_of_mem hn)
        obtain ⟨left, hplan⟩ := hpre
        rw [← hplan, hfew] at hfirst
        obtain rfl := Option.some.inj hfirst
        rw [hfew]
        rfl
  · rcases ht.found hop c hc with hl | ⟨j, hj, hmem⟩
    · exact hl
    · exact absurd (mem_eventsIn.mp hmem) (hkept j hj)

/-- The superuser's log after a `KMALLOC`. -/
def asRootWithBuffer (c : Command) : c.Res :=
  match c with
  | .dmesg => ["Allocating memory".toList, "0x1000".toList]
  | c => asRoot c

/-- A kernel that opens the device. -/
def openKernel : ModIoctl.Kernel := ⟨3, 0, fun _ _ _ => (0, 0)⟩

/-- `ecr.sh -l ecr.ko`, from its start to its `rmmod`: the driver gets `KMALLOC` and `CACHE`. -/
theorem commands_ordered_cache : ∃ (evs : List (Event Unit ⊕ IoctlCall Unit)) (s : State Unit),
    (ioctlSystem ecrKo.chars).Run System.Any
      (initial true fun _ => [.ofLine "-l".toList (by decide), ecrKo]) evs s ∧
    Opens (fun _ => openKernel) () evs ∧ (∀ c ∈ callsOf () evs, c.loaded = true) ∧
    .inl (.performed () false (.rmmod (some ecrKo.chars))) ∈ evs ∧
    requestsOf (fun _ => openKernel) () evs = [timingIoctlKmalloc, timingIoctlCache] := by
  obtain ⟨evs, s, hrun, hremoved, hloaded⟩ := System.Run.exists_of_exec
    (ioctlSystem ecrKo.chars) System.Any
    (initial true fun _ : Unit => [.ofLine "-l".toList (by decide), ecrKo])
    (List.replicate 19 (.proceed () asRootWithBuffer))
    (fun evs _ => .performed () false (.rmmod (some ecrKo.chars)) ∈ eventsIn evs ∧
      ∀ c ∈ callsOf () evs, c.loaded = true) (by decide +kernel)
  have hopens : Opens (fun _ => openKernel) () evs := by
    intro c hc
    have hopen : openKernel.fd ≠ -1 := by decide
    rw [hloaded c.1 (List.fst_mem_of_mem_zipIdx hc)]
    exact iff_of_false hopen nofun
  have hrmmod := mem_eventsIn.mp hremoved
  refine ⟨evs, s, hrun, hopens, hloaded, hrmmod, ?_⟩
  rw [((commands_ordered hrun () hopens).2.2.1 hloaded).2.1 _ hrmmod]
  decide +kernel

end

end EcrSh

end EcrToolkit
