import EcrToolkit.CycleLog
import EcrToolkit.Delimited
import EcrToolkit.ExitFlag
import EcrToolkit.ScriptRun

/-!
# `results.csv`

Runs of `ecr.sh -c` in one directory, any number of them, one operation on the file at a
time.  The timing removes the file and then appends a row for every instruction; the other
two append to whatever is there.  A run can stop anywhere.  `results_csv` says what can be
read back at any moment.
-/
namespace EcrToolkit.ResultsCsv

open AtomicProgram TextTools Transitions

/-! ## Rows -/

/-- `$wall_avg`, `$nop_avg`, `$wall_var` and `$nop_var` of an instruction. -/
structure Statistics where
  wallAvg : BitVec 64
  nopAvg : BitVec 64
  wallVar : BitVec 64
  nopVar : BitVec 64

/-- What a run writes: the figures that `cache_parse` and `memory_parse` have found, or the
statistics. -/
inductive Job
  | cache (figure : Fin 5 → Option (BitVec 32))
  | memory (figure : Fin 10 → Option (BitVec 32))
  | timing (flush : Bool) (statistics : String → Statistics)

/-- The text of a figure. -/
def figureText (v : Option (BitVec 32)) : Line := (v.map fun v => decimal v.toInt).getD []

/-- Element `n` of `address_offsets`. -/
def addressOffset (n : Fin 5) : Line :=
  match n with
  | 0 => "0x0".toList
  | 1 => "0x40".toList
  | 2 => "0x80".toList
  | 3 => "0x100".toList
  | 4 => "0x1000".toList

/-- The fields of the rows. -/
def Job.rows : Job → List (List Line)
  | .cache figure => (List.finRange 5).map fun n => [addressOffset n, figureText (figure n)]
  | .memory figure => (List.finRange 10).map fun i =>
      [(Nat.repr i.val).toList, figureText (figure i)]
  | .timing flush statistics => (instructionArray flush).map fun j =>
      [j.toList, decimal (statistics j).wallAvg.toInt, decimal (statistics j).nopAvg.toInt,
        decimal (statistics j).wallVar.toInt, decimal (statistics j).nopVar.toInt]

/-! ## What the script does -/

inductive FileOp
  /-- `[ -f ./results.csv ]`. -/
  | isFile
  /-- `rm results.csv`. -/
  | rm
  /-- `... >> results.csv`. -/
  | append (text : Line)
  deriving DecidableEq

@[reducible] def FileOp.Res : FileOp → Type
  | .isFile => Bool
  | _ => Unit

abbrev FileCode := Prog FileOp FileOp.Res

def isFile : FileCode Bool := .op .isFile .ret
def rm : FileCode Unit := .op .rm .ret
def append (text : Line) : FileCode Unit := .op (.append text) .ret

/-- `printf "%s,%s\n"` of these arguments; the format is used again while there are more. -/
def printfPair : List Line → Line
  | [] => [',', '\n']
  | [x] => x ++ [',', '\n']
  | [x, y] => x ++ ',' :: (y ++ ['\n'])
  | x :: y :: z :: args => x ++ ',' :: (y ++ '\n' :: printfPair (z :: args))

/-- `printf "%s,%d,%d,%d,%d\n"` of a name and four numbers. -/
def printfStatistics (name : Line) (s : Statistics) : Line :=
  name ++ ',' :: (decimal s.wallAvg.toInt ++ ',' :: (decimal s.nopAvg.toInt ++
    ',' :: (decimal s.wallVar.toInt ++ ',' :: (decimal s.nopVar.toInt ++ ['\n']))))

/-- The part of a run that writes the file.  `${cache_arr[$i]}` is not quoted: it is an
argument for every word of it. -/
def Job.program : Job → FileCode Unit
  | .cache figure => Prog.forEach (List.finRange 5) fun n =>
      append (printfPair (addressOffset n :: words (figureText (figure n))))
  | .memory figure => Prog.forEach (List.finRange 10) fun i =>
      append (printfPair ((Nat.repr i.val).toList :: words (figureText (figure i))))
  | .timing flush statistics => do
      if ← isFile then rm
      Prog.forEach (instructionArray flush) fun j =>
        append (printfStatistics j.toList (statistics j))

/-! ## Any number of runs -/

inductive Event (ι : Type)
  | tested (i : ι) (found : Bool)
  | removed (i : ι)
  | appended (i : ι) (text : Line)
  deriving DecidableEq

/-- The file, and what the runs have still to do. -/
structure State (ι : Type) where
  file : Option Line
  left : ι → FileCode Unit

section
variable {ι : Type} [DecidableEq ι]

def State.goOn (s : State ι) (i : ι) (p : FileCode Unit) : State ι :=
  { s with left := Function.update s.left i p }

/-- Run `i` performs its next operation. -/
def step (s : State ι) (i : ι) : Option (List (Event ι) × State ι) :=
  match s.left i with
  | .ret _ => none
  | .op .isFile k => some ([.tested i s.file.isSome], s.goOn i (k s.file.isSome))
  | .op .rm k =>
    -- `rm` fails if another run has been faster
    some (if s.file.isSome then [.removed i] else [], { s.goOn i (k ()) with file := none })
  | .op (.append text) k =>
    some ([.appended i text], { s.goOn i (k ()) with file := some (s.file.getD [] ++ text) })

def system : System (State ι) ι (Event ι) := ⟨step⟩

omit [DecidableEq ι] in
/-- A directory without `results.csv`. -/
def initial (jobs : ι → Job) : State ι := ⟨none, fun i => (jobs i).program⟩

end

/-! ## The texts of the rows -/

theorem words_figureText (v : Option (BitVec 32)) :
    words (figureText v) = if figureText v = [] then [] else [figureText v] := by
  cases v with
  | none =>
    have hnil : figureText none = [] := rfl
    rw [if_pos hnil, hnil, words_nil]
  | some v =>
    have hne : figureText (some v) ≠ [] := decimal_ne_nil v.toInt
    rw [if_neg hne]
    exact words_singleton hne decimal_not_blank

theorem printfPair_eq (x : Line) (v : Option (BitVec 32)) :
    printfPair (x :: words (figureText v)) = Delimited.text ',' '\n' [x, figureText v] := by
  rw [words_figureText]
  split
  case isTrue h =>
    rw [h]
    simp [printfPair, Delimited.text, Delimited.line]
  case isFalse => simp [printfPair, Delimited.text, Delimited.line]

theorem printfStatistics_eq (x : Line) (s : Statistics) :
    printfStatistics x s = Delimited.text ',' '\n' [x, decimal s.wallAvg.toInt,
      decimal s.nopAvg.toInt, decimal s.wallVar.toInt, decimal s.nopVar.toInt] := by
  simp [printfStatistics, Delimited.text, Delimited.line]

theorem decimal_clean (n : Int) : ',' ∉ decimal n ∧ '\n' ∉ decimal n :=
  ⟨notMem_decimal (by decide) (by decide), notMem_decimal (by decide) (by decide)⟩

theorem figureText_clean (v : Option (BitVec 32)) : ',' ∉ figureText v ∧ '\n' ∉ figureText v := by
  cases v with
  | none => exact ⟨List.not_mem_nil, List.not_mem_nil⟩
  | some v => exact decimal_clean v.toInt

/-- **Every row can be read back.** -/
theorem Job.rows_clean (job : Job) : ∀ r ∈ job.rows, Delimited.Clean ',' '\n' r := by
  intro r hr
  cases job with
  | cache figure =>
    obtain ⟨n, -, rfl⟩ := List.mem_map.mp hr
    have hoffset : ∀ n, ',' ∉ addressOffset n ∧ '\n' ∉ addressOffset n := by decide
    exact ⟨List.cons_ne_nil _ _, List.forall_mem_cons.mpr ⟨hoffset n,
      List.forall_mem_singleton.mpr (figureText_clean _)⟩⟩
  | memory figure =>
    obtain ⟨i, -, rfl⟩ := List.mem_map.mp hr
    exact ⟨List.cons_ne_nil _ _, List.forall_mem_cons.mpr
      ⟨⟨repr_notMem (by decide), repr_notMem (by decide)⟩,
        List.forall_mem_singleton.mpr (figureText_clean _)⟩⟩
  | timing flush statistics =>
    obtain ⟨j, hj, rfl⟩ := List.mem_map.mp hr
    have hname : ∀ flush, ∀ j ∈ instructionArray flush, ',' ∉ j.toList ∧ '\n' ∉ j.toList := by
      decide
    refine ⟨List.cons_ne_nil _ _, List.forall_mem_cons.mpr ⟨hname flush j hj, ?_⟩⟩
    simp [decimal_clean]

/-- The texts that a run appends. -/
def Job.texts (job : Job) : List Line := job.rows.map (Delimited.text ',' '\n')

/-! ## The order of a run -/

/-- How far a run has come: it has to look for the file, or has found it and removes it, or
appends these texts. -/
inductive Progress
  | testing (left : List Line)
  | removing (left : List Line)
  | writing (left : List Line)

def Progress.left : Progress → List Line
  | .testing left | .removing left | .writing left => left

/-- The operations in their order. -/
def Progress.next : Progress → (o : FileOp) → o.Res → Option Progress
  | .testing left, .isFile, found => some (if found then .removing left else .writing left)
  | .removing left, .rm, _ => some (.writing left)
  | .writing (t :: left), .append t', _ => if t' = t then some (.writing left) else none
  | _, _, _ => none

/-- Where a run begins. -/
def Job.begins (job : Job) : Progress :=
  match job with
  | .timing _ _ => .testing job.texts
  | _ => .writing job.texts

theorem appends_follow {γ : Type} {printf : γ → Line} {fields : γ → List Line}
    (h : ∀ x, printf x = Delimited.text ',' '\n' (fields x)) (xs : List γ) :
    Prog.Follows Progress.next (fun p _ => p = .writing [])
      (.writing ((xs.map fields).map (Delimited.text ',' '\n')))
      (Prog.forEach xs fun x => append (printf x)) := by
  induction xs with
  | nil => exact rfl
  | cons x xs ih => exact Prog.follows_op (fun _ => .writing _) (fun _ => if_pos (h x)) fun _ => ih

/-- **A run appends its rows**, in their order, and the timing has removed the file before. -/
theorem Job.program_follows (job : Job) :
    Prog.Follows Progress.next (fun p _ => p = .writing []) job.begins job.program := by
  cases job with
  | cache figure => exact appends_follow (fun n => printfPair_eq _ _) _
  | memory figure => exact appends_follow (fun i => printfPair_eq _ _) _
  | timing flush statistics =>
    have hrows := appends_follow (fun j => printfStatistics_eq j.toList (statistics j))
      (instructionArray flush)
    have htest : ∀ found : Bool, Progress.next (.testing (Job.timing flush statistics).texts)
        .isFile found = some (if found then .removing _ else .writing _) := fun _ => rfl
    refine Prog.follows_op _ htest fun (found : Bool) => ?_
    cases found with
    | false => exact hrows
    | true => exact Prog.follows_op (fun _ => .writing _) (fun _ => rfl) fun _ => hrows

/-- What a run can do. -/
inductive Progress.Moves : Progress → (o : FileOp) → o.Res → Progress → Prop
  | found (left : List Line) : Moves (.testing left) .isFile true (.removing left)
  | absent (left : List Line) : Moves (.testing left) .isFile false (.writing left)
  | removed (left : List Line) (r : Unit) : Moves (.removing left) .rm r (.writing left)
  | appended (t : Line) (left : List Line) (r : Unit) :
    Moves (.writing (t :: left)) (.append t) r (.writing left)

theorem Progress.moves_of_next {p p' : Progress} {o : FileOp} {r : o.Res}
    (h : p.next o r = some p') : p.Moves o r p' := by
  rcases p with left | left | (_ | ⟨t, left⟩) <;> cases o <;> try cases h
  case testing.isFile =>
    cases (r : Bool) with
    | true => exact .found left
    | false => exact .absent left
  case removing.rm => exact .removed left r
  case writing.cons.append t' =>
    obtain ⟨rfl, hp⟩ := Option.ite_none_right_eq_some.mp h
    cases hp
    exact .appended _ left r

/-! ## What the file holds -/

section
variable {ι : Type}

/-- The run that an event belongs to. -/
def Event.run : Event ι → ι
  | .tested i _ | .removed i | .appended i _ => i

def Event.text : Event ι → Option Line
  | .appended _ t => some t
  | _ => none

/-- The texts appended. -/
def appended (evs : List (Event ι)) : List Line := evs.filterMap Event.text

def Event.keep (kept : List Line) : Event ι → List Line
  | .tested _ _ => kept
  | .removed _ => []
  | .appended _ t => kept ++ [t]

/-- The texts appended since the file was last removed. -/
def kept (evs : List (Event ι)) : List Line := evs.foldl Event.keep []

variable {evs : List (Event ι)} {e : Event ι} {s s' : State ι} {i : ι}

theorem kept_snoc (evs : List (Event ι)) (e : Event ι) : kept (evs ++ [e]) = e.keep (kept evs) :=
  List.foldl_append

theorem appended_append (evs evs' : List (Event ι)) :
    appended (evs ++ evs') = appended evs ++ appended evs' := List.filterMap_append

theorem kept_subset (evs : List (Event ι)) : kept evs ⊆ appended evs := by
  induction evs using List.reverseRecOn with
  | nil => exact List.Subset.refl _
  | append_singleton evs e ih =>
    rw [kept_snoc, appended_append]
    cases e with
    | tested i found => exact List.subset_append_of_subset_left _ ih
    | removed i => exact List.nil_subset _
    | appended i t =>
      exact List.append_subset.mpr ⟨List.subset_append_of_subset_left _ ih,
        List.subset_append_right _ _⟩

/-- The file and what was kept. -/
structure Holds (evs : List (Event ι)) (file : Option Line) : Prop where
  contents : file.getD [] = (kept evs).flatten
  absent : file = none → kept evs = []

variable [DecidableEq ι]

def Event.textOf (i : ι) : Event ι → Option Line
  | .appended j t => if j = i then some t else none
  | _ => none

/-- The texts that run `i` has appended. -/
def appendedBy (i : ι) (evs : List (Event ι)) : List Line := evs.filterMap (Event.textOf i)

theorem appendedBy_append (i : ι) (evs evs' : List (Event ι)) :
    appendedBy i (evs ++ evs') = appendedBy i evs ++ appendedBy i evs' := List.filterMap_append

theorem appendedBy_of_ne (h : e.run ≠ i) : appendedBy i [e] = [] := by
  refine List.filterMap_eq_nil_iff.mpr fun x hx => ?_
  rw [List.mem_singleton.mp hx]
  cases e with
  | appended j t => exact if_neg h
  | tested | removed => rfl

theorem appendedBy_self (i : ι) (t : Line) : appendedBy i [.appended i t] = [t] :=
  List.filterMap_cons_some (if_pos rfl)

/-- What is in the file has been appended since run `i` looked for it, and what run `i` has
appended is in it, unless another run has removed it. -/
def Fresh (i : ι) (evs : List (Event ι)) : Prop :=
  ∃ evs₁ found evs₂, evs = evs₁ ++ .tested i found :: evs₂ ∧ kept evs <:+ appended evs₂ ∧
    ((∀ j ≠ i, .removed j ∉ evs₂) → (appendedBy i evs).Sublist (kept evs))

/-- Right after a removal, or when there was nothing to remove. -/
theorem Fresh.of_nothing {found : Bool} (h : .tested i found ∈ evs) (hkept : kept evs = [])
    (hnone : appendedBy i evs = []) : Fresh i evs := by
  obtain ⟨evs₁, evs₂, rfl⟩ := List.append_of_mem h
  refine ⟨evs₁, found, evs₂, rfl, ?_, fun _ => ?_⟩
  · rw [hkept]
    exact List.nil_suffix
  · rw [hnone]
    exact List.nil_sublist _

/-- **The rows stay fresh**: another run does anything, or run `i` appends a text. -/
theorem Fresh.snoc (h : Fresh i evs) (he : e.run ≠ i ∨ ∃ t, e = .appended i t) :
    Fresh i (evs ++ [e]) := by
  obtain ⟨evs₁, found, evs₂, rfl, hsuffix, hsub⟩ := h
  refine ⟨evs₁, found, evs₂ ++ [e], by simp, ?_, fun hothers => ?_⟩
  · rw [kept_snoc, appended_append]
    cases e with
    | tested j found' =>
      show kept _ <:+ appended evs₂ ++ []
      rwa [List.append_nil]
    | removed j => exact List.nil_suffix
    | appended j t =>
      obtain ⟨before, hbefore⟩ := hsuffix
      exact ⟨before, by rw [Event.keep, ← List.append_assoc, hbefore]; rfl⟩
  · have hkept := hsub fun j hj hin => hothers j hj (List.mem_append_left _ hin)
    rw [kept_snoc, appendedBy_append]
    rcases he with he | ⟨t, rfl⟩
    · rw [appendedBy_of_ne he, List.append_nil]
      cases e with
      | tested j found' => exact hkept
      | removed j => exact absurd (List.mem_append_right _ List.mem_cons_self) (hothers j he)
      | appended j t => exact hkept.trans (List.sublist_append_left _ _)
    · rw [appendedBy_self]
      exact hkept.append (List.Sublist.refl _)

/-- The timing removes the file. -/
def Job.removes : Job → Bool
  | .timing _ _ => true
  | _ => false

/-- What a run has done. -/
def Progress.Fits (job : Job) (i : ι) (evs : List (Event ι)) : Progress → Prop
  | .testing left => left = job.texts ∧ appendedBy i evs = []
  | .removing left => left = job.texts ∧ appendedBy i evs = [] ∧ ∃ found, .tested i found ∈ evs
  | .writing left => appendedBy i evs ++ left = job.texts ∧ (job.removes = true → Fresh i evs)

theorem Progress.Fits.other {job : Job} {p : Progress} (h : p.Fits job i evs) (he : e.run ≠ i) :
    p.Fits job i (evs ++ [e]) := by
  have hsame : appendedBy i (evs ++ [e]) = appendedBy i evs := by
    rw [appendedBy_append, appendedBy_of_ne he, List.append_nil]
  cases p with
  | testing left => exact ⟨h.1, hsame.trans h.2⟩
  | removing left =>
    obtain ⟨hleft, hnone, found, hfound⟩ := h
    exact ⟨hleft, hsame.trans hnone, found, List.mem_append_left _ hfound⟩
  | writing left =>
    refine ⟨?_, fun hjob => (h.2 hjob).snoc (Or.inl he)⟩
    rw [hsame]
    exact h.1

/-- Run `i` after the events `evs`. -/
structure Keeps (job : Job) (i : ι) (evs : List (Event ι)) (code : FileCode Unit)
    (p : Progress) : Prop where
  script : Prog.Follows Progress.next (fun p _ => p = .writing []) p code
  fits : p.Fits job i evs

/-! ## Every run -/

/-- What a step of run `i` does. -/
inductive Stepped (s : State ι) (i : ι) : List (Event ι) → State ι → Prop
  | tested {k : Bool → FileCode Unit} (h : s.left i = .op .isFile k) :
    Stepped s i [.tested i s.file.isSome] (s.goOn i (k s.file.isSome))
  | removed {k : Unit → FileCode Unit} (h : s.left i = .op .rm k) (hfile : s.file.isSome = true) :
    Stepped s i [.removed i] { s.goOn i (k ()) with file := none }
  | missed {k : Unit → FileCode Unit} (h : s.left i = .op .rm k) (hfile : s.file = none) :
    Stepped s i [] { s.goOn i (k ()) with file := none }
  | appended {t : Line} {k : Unit → FileCode Unit} (h : s.left i = .op (.append t) k) :
    Stepped s i [.appended i t] { s.goOn i (k ()) with file := some (s.file.getD [] ++ t) }

theorem stepped_of_step {es : List (Event ι)} (h : step s i = some (es, s')) :
    Stepped s i es s' := by
  unfold step at h
  split at h
  · cases h
  next k hleft =>
    cases h
    exact .tested hleft
  next k hleft =>
    cases hfile : s.file with
    | none =>
      rw [hfile] at h
      cases h
      exact .missed hleft hfile
    | some f =>
      rw [hfile] at h
      cases h
      exact .removed hleft (by rw [hfile]; rfl)
  next t k hleft =>
    cases h
    exact .appended hleft

theorem goOn_left_self (s : State ι) (i : ι) (p : FileCode Unit) : (s.goOn i p).left i = p :=
  Function.update_self ..

theorem goOn_left_of_ne (s : State ι) {i j : ι} (h : i ≠ j) (p : FileCode Unit) :
    (s.goOn j p).left i = s.left i := Function.update_of_ne h ..

/-- **The file** after a step. -/
theorem Holds.step {es : List (Event ι)} (h : Holds evs s.file) (hs : Stepped s i es s') :
    Holds (evs ++ es) s'.file := by
  cases hs with
  | tested hleft =>
    have hkept : kept (evs ++ [.tested i s.file.isSome]) = kept evs := kept_snoc _ _
    exact ⟨h.contents.trans (congrArg List.flatten hkept.symm), fun hf => hkept.trans (h.absent hf)⟩
  | removed hleft hfile =>
    have hkept : kept (evs ++ [.removed i]) = [] := kept_snoc _ _
    exact ⟨(congrArg List.flatten hkept).symm, fun _ => hkept⟩
  | missed hleft hfile =>
    have hkept := h.absent hfile
    rw [List.append_nil]
    exact ⟨(congrArg List.flatten hkept).symm, fun _ => hkept⟩
  | @appended t k hleft =>
    have hkept : kept (evs ++ [.appended i t]) = kept evs ++ [t] := kept_snoc _ _
    refine ⟨?_, fun hf => absurd hf (Option.some_ne_none _)⟩
    rw [hkept, List.flatten_append, ← h.contents]
    simp

/-- **A step** of run `i` or of another one. -/
theorem Keeps.step {job : Job} {j : ι} {p : Progress} {es : List (Event ι)}
    (hfile : Holds evs s.file) (h : Keeps job i evs (s.left i) p) (hs : Stepped s j es s') :
    ∃ p', Keeps job i (evs ++ es) (s'.left i) p' := by
  by_cases hij : i = j
  case neg =>
    -- another run does not touch what run `i` has still to do
    have hne : ∀ e : Event ι, e.run = j → e.run ≠ i := fun e he hi => hij (hi.symm.trans he)
    refine ⟨p, ?_, ?_⟩
    · have hleft : s'.left i = s.left i := by
        cases hs <;> exact goOn_left_of_ne s hij _
      rw [hleft]
      exact h.script
    · cases hs with
      | tested | removed | appended => exact h.fits.other (hne _ rfl)
      | missed =>
        rw [List.append_nil]
        exact h.fits
  subst hij
  have hfits := h.fits
  -- the program that is left is the continuation
  have hcode : ∀ (file : Option Line) (q : FileCode Unit),
      ({ s.goOn i q with file := file } : State ι).left i = q := fun _ q => goOn_left_self s i q
  cases hs with
  | tested hleft =>
    obtain ⟨p', hp', hk⟩ := (hleft ▸ h.script).step s.file.isSome
    refine ⟨p', by rwa [goOn_left_self], ?_⟩
    have hin : ∀ found, .tested i found ∈ evs ++ [.tested i found] := fun _ =>
      List.mem_append_right _ List.mem_cons_self
    have hsame : ∀ found, appendedBy i (evs ++ [.tested i found]) = appendedBy i evs := fun _ =>
      (appendedBy_append ..).trans (List.append_nil _)
    generalize hfound : s.file.isSome = found at hp' hk
    cases Progress.moves_of_next hp' with
    | found left => exact ⟨hfits.1, (hsame true).trans hfits.2, true, hin true⟩
    | absent left =>
      obtain ⟨rfl, hnone⟩ := hfits
      have hnone := (hsame false).trans hnone
      refine ⟨by rw [hnone, List.nil_append], fun _ => .of_nothing (hin false) ?_ hnone⟩
      have habsent : s.file = none := Option.not_isSome_iff_eq_none.mp (by simp [hfound])
      exact (kept_snoc _ _).trans (hfile.absent habsent)
  | removed hleft hsome =>
    obtain ⟨p', hp', hk⟩ := (hleft ▸ h.script).step ()
    refine ⟨p', by rwa [hcode], ?_⟩
    have hsame : appendedBy i (evs ++ [.removed i]) = appendedBy i evs :=
      (appendedBy_append ..).trans (List.append_nil _)
    cases Progress.moves_of_next hp' with
    | removed left =>
      obtain ⟨rfl, hnone, found, hfound⟩ := hfits
      have hnone := hsame.trans hnone
      exact ⟨by rw [hnone, List.nil_append],
        fun _ => .of_nothing (List.mem_append_left _ hfound) (kept_snoc _ _) hnone⟩
  | missed hleft hmissing =>
    obtain ⟨p', hp', hk⟩ := (hleft ▸ h.script).step ()
    refine ⟨p', by rwa [hcode], ?_⟩
    rw [List.append_nil]
    cases Progress.moves_of_next hp' with
    | removed left =>
      obtain ⟨rfl, hnone, found, hfound⟩ := hfits
      exact ⟨by rw [hnone, List.nil_append],
        fun _ => .of_nothing hfound (hfile.absent hmissing) hnone⟩
  | @appended t k hleft =>
    obtain ⟨p', hp', hk⟩ := (hleft ▸ h.script).step ()
    refine ⟨p', by rwa [hcode], ?_⟩
    cases Progress.moves_of_next hp' with
    | appended t left =>
      refine ⟨?_, fun hjob => (hfits.2 hjob).snoc (Or.inr ⟨t, rfl⟩)⟩
      rw [appendedBy_append, appendedBy_self, List.append_assoc]
      exact hfits.1

variable {jobs : ι → Job}

theorem holds_of_run (h : system.Run System.Any (initial jobs) evs s) :
    Holds evs s.file ∧ ∀ i, ∃ p, Keeps (jobs i) i evs (s.left i) p := by
  refine h.invariant
    (I := fun evs s => Holds evs s.file ∧ ∀ i, ∃ p, Keeps (jobs i) i evs (s.left i) p) ?_ ?_
  · refine ⟨⟨rfl, fun _ => rfl⟩, fun i => ⟨(jobs i).begins, (jobs i).program_follows, ?_⟩⟩
    cases hjob : jobs i with
    | timing flush statistics => exact ⟨rfl, rfl⟩
    | cache figure | memory figure => exact ⟨rfl, fun hr => by cases hr⟩
  · rintro evs s j es s' ⟨hfile, hkeeps⟩ - hs
    have hstepped := stepped_of_step hs
    refine ⟨hfile.step hstepped, fun i => ?_⟩
    obtain ⟨p, hp⟩ := hkeeps i
    exact hp.step hfile hstepped

/-- A run has appended the texts of its first rows. -/
theorem Keeps.isBeginning {job : Job} {code : FileCode Unit} {p : Progress}
    (h : Keeps job i evs code p) : appendedBy i evs <+: job.texts := by
  have hfits := h.fits
  cases p with
  | testing left | removing left =>
    have hnone : appendedBy i evs = [] := by first | exact hfits.2 | exact hfits.2.1
    rw [hnone]
    exact List.nil_prefix
  | writing left => exact ⟨left, hfits.1⟩

/-- A timing that has appended a row has removed the file. -/
theorem Keeps.fresh {job : Job} {code : FileCode Unit} {p : Progress}
    (h : Keeps job i evs code p) (hjob : job.removes = true) (hne : appendedBy i evs ≠ []) :
    Fresh i evs := by
  have hfits := h.fits
  cases p with
  | testing left => exact absurd hfits.2 hne
  | removing left => exact absurd hfits.2.1 hne
  | writing left => exact hfits.2 hjob

theorem exists_rows {P : List Line → Prop} {ts : List Line}
    (h : ∀ t ∈ ts, ∃ r, P r ∧ Delimited.text ',' '\n' r = t) :
    ∃ rows : List (List Line), (∀ r ∈ rows, P r) ∧ rows.map (Delimited.text ',' '\n') = ts := by
  induction ts with
  | nil => exact ⟨[], fun r hr => absurd hr List.not_mem_nil, rfl⟩
  | cons t ts ih =>
    obtain ⟨⟨r, hr, rfl⟩, hts⟩ := List.forall_mem_cons.mp h
    obtain ⟨rows, hrows, rfl⟩ := ih hts
    exact ⟨r :: rows, List.forall_mem_cons.mpr ⟨hr, hrows⟩, rfl⟩

theorem mem_appendedBy {t : Line} (h : t ∈ appended evs) : ∃ i, t ∈ appendedBy i evs := by
  obtain ⟨e, he, het⟩ := List.mem_filterMap.mp h
  cases e with
  | tested | removed => cases het
  | appended i t' =>
    obtain rfl := Option.some.inj het
    exact ⟨i, List.mem_filterMap.mpr ⟨_, he, if_pos rfl⟩⟩

theorem appended_of_run (h : ∀ e ∈ evs, e.run = i) : appended evs = appendedBy i evs := by
  refine List.filterMap_congr fun e he => ?_
  cases e with
  | tested | removed => rfl
  | appended j t => exact (if_pos (h _ he)).symm

/-- **What `results.csv` holds**, whatever the runs do and wherever they stop: whole rows of
theirs, each run's in their order from the first.  Once a timing has appended a row, all of it
was appended after that run looked for the file; and it is just what that run has appended, if
no other run has done anything since. -/
theorem results_csv (h : system.Run System.Any (initial jobs) evs s) :
    (∃ rows, Delimited.decode ',' '\n' (s.file.getD []) = some rows ∧
      rows.map (Delimited.text ',' '\n') = kept evs ∧ ∀ r ∈ rows, ∃ i, r ∈ (jobs i).rows) ∧
    ∀ i, (∃ n, appendedBy i evs = ((jobs i).rows.take n).map (Delimited.text ',' '\n')) ∧
      ((jobs i).removes = true → appendedBy i evs ≠ [] →
        ∃ evs₁ found evs₂, evs = evs₁ ++ .tested i found :: evs₂ ∧ kept evs <:+ appended evs₂ ∧
          ((∀ e ∈ evs₂, e.run = i) → kept evs = appendedBy i evs)) := by
  obtain ⟨hfile, hkeeps⟩ := holds_of_run h
  refine ⟨?_, fun i => ⟨?_, fun hjob hne => ?_⟩⟩
  · have htext : ∀ t ∈ kept evs,
        ∃ r, (∃ i, r ∈ (jobs i).rows) ∧ Delimited.text ',' '\n' r = t := by
      intro t ht
      obtain ⟨i, hi⟩ := mem_appendedBy (kept_subset evs ht)
      obtain ⟨p, hp⟩ := hkeeps i
      obtain ⟨r, hr, htext⟩ := List.mem_map.mp (hp.isBeginning.subset hi)
      exact ⟨r, ⟨i, hr⟩, htext⟩
    obtain ⟨rows, hrows, htexts⟩ := exists_rows htext
    refine ⟨rows, ?_, htexts, hrows⟩
    rw [hfile.contents, ← htexts, ← List.flatMap_def]
    refine Delimited.decode_encode (by decide) fun r hr => ?_
    obtain ⟨i, hi⟩ := hrows r hr
    exact (jobs i).rows_clean r hi
  · obtain ⟨p, hp⟩ := hkeeps i
    exact ⟨_, (List.prefix_iff_eq_take.mp hp.isBeginning).trans (List.map_take ..).symm⟩
  · obtain ⟨p, hp⟩ := hkeeps i
    obtain ⟨evs₁, found, evs₂, hsplit, hsuffix, hsub⟩ := hp.fresh hjob hne
    refine ⟨evs₁, found, evs₂, hsplit, hsuffix, fun halone => ?_⟩
    have hothers : ∀ j ≠ i, .removed j ∉ evs₂ := fun j hj hin => hj (halone _ hin)
    -- both are as long as what the run has appended since
    have hle : (kept evs).length ≤ (appendedBy i evs).length := by
      refine hsuffix.length_le.trans ?_
      rw [appended_of_run halone, hsplit, appendedBy_append, List.length_append]
      exact Nat.le_add_left _ _
    exact ((hsub hothers).eq_of_length_le hle).symm

/-- A cache timing and a buffer flush timing. -/
def twoJobs : Fin 2 → Job
  | 0 => .cache fun _ => some 70
  | 1 => .timing true fun _ => ⟨300, 200, 10, 20⟩

/-- The first stops after two rows, and then the second one writes its table. -/
theorem results_csv_two_runs : ∃ (evs : List (Event (Fin 2))) (s : State (Fin 2)),
    appendedBy 0 evs ≠ [] ∧ ∃ rows, Delimited.decode ',' '\n' (s.file.getD []) = some rows ∧
      rows.map (Delimited.text ',' '\n') = (twoJobs 1).texts := by
  obtain ⟨evs, s, hrun, hfirst, hkept⟩ := System.Run.exists_of_exec system System.Any
    (initial twoJobs) [0, 0, 1, 1, 1, 1, 1]
    (fun evs _ => appendedBy 0 evs ≠ [] ∧ kept evs = (twoJobs 1).texts) (by decide +kernel)
  obtain ⟨⟨rows, hdecode, htexts, -⟩, -⟩ := results_csv hrun
  exact ⟨evs, s, hfirst, rows, hdecode, htexts.trans hkept⟩

end

end EcrToolkit.ResultsCsv
