import EcrToolkit.Figures

/-!
# `SUSPEND_INTERRUPTS` as a critical section

The macro saves the interrupt flag and disables interrupts, runs its code, restores the
flag, and then enables interrupts whatever the flag was.  So after a section interrupts
are enabled (`irqsAfter_program`), and the rest of a section around it runs with
interrupts enabled.  `bracketed_iff` says which bodies this leaves right: those without a
section, and, entered with interrupts enabled, those with no section inside another.  The
loops of `wall_timer.c` are of the second kind (`wallTimingLoops_bracketed`).
-/
namespace EcrToolkit

open AtomicProgram

/-! ## The interrupt flag -/

/-- Whether interrupts are enabled after an operation. -/
def irqsAfterOp (enabled : Bool) : Op → Bool
  | .localIrqSave | .localIrqDisable => false
  | .localIrqRestore flags => flags
  | .localIrqEnable => true
  | _ => enabled

/-- Whether interrupts are enabled after a run. -/
def irqsAfter (enabled : Bool) (t : List Answered) : Bool :=
  t.foldl (fun i e => irqsAfterOp i e.1) enabled

/-- `local_irq_save` answers with the state it finds. -/
def Recorded (enabled : Bool) : Answered → Prop
  | ⟨.localIrqSave, flags⟩ => flags = enabled
  | _ => True

/-- Every `local_irq_save` of the run does. -/
def Records : Bool → List Answered → Prop
  | _, [] => True
  | enabled, e :: t => Recorded enabled e ∧ Records (irqsAfterOp enabled e.1) t

/-- The operation leaves the flag as it is. -/
def Op.IrqNeutral (o : Op) : Prop := ∀ enabled, irqsAfterOp enabled o = enabled

variable {i : Bool} {t t' : List Answered}

theorem irqsAfter_append : irqsAfter i (t ++ t') = irqsAfter (irqsAfter i t) t' :=
  List.foldl_append

theorem records_append : Records i (t ++ t') ↔ Records i t ∧ Records (irqsAfter i t) t' := by
  induction t generalizing i with
  | nil => exact ⟨fun h => ⟨trivial, h⟩, And.right⟩
  | cons e t ih => exact (and_congr_right fun _ => ih).trans and_assoc.symm

theorem irqsAfter_of_neutral (h : ∀ e ∈ t, e.1.IrqNeutral) : irqsAfter i t = i := by
  induction t with
  | nil => rfl
  | cons e t ih =>
    obtain ⟨he, ht⟩ := List.forall_mem_cons.mp h
    show irqsAfter (irqsAfterOp i e.1) t = i
    rw [he]
    exact ih ht

/-! ## Bodies -/

/-- The first two operations of a section. -/
def opening (flags : Bool) : List Answered := [⟨.localIrqSave, flags⟩, ⟨.localIrqDisable, ()⟩]

/-- The last two operations of a section. -/
def closing (flags : Bool) : List Answered :=
  [⟨.localIrqRestore flags, ()⟩, ⟨.localIrqEnable, ()⟩]

theorem suspendInterrupts_traces {code : Code Unit} (h : (suspendInterrupts code).Traces t ()) :
    ∃ flags t', t = opening flags ++ (t' ++ closing flags) ∧ code.Traces t' () := by
  obtain ⟨flags, t₁, rfl, h₁⟩ := Prog.traces_perform.mp h
  obtain ⟨_, t₂, rfl, h₂⟩ := Prog.traces_perform.mp h₁
  obtain ⟨t₃, _, t₄, rfl, hcode, h₄⟩ := Prog.traces_bind.mp h₂
  obtain ⟨_, t₅, rfl, h₅⟩ := Prog.traces_perform.mp h₄
  obtain ⟨_, t₆, rfl, h₆⟩ := Prog.traces_op.mp h₅
  obtain ⟨rfl, -⟩ := Prog.traces_ret.mp h₆
  exact ⟨flags, t₃, rfl, hcode⟩

/-- **Code with sections in it**: code that leaves the interrupt flag alone, one body
after another, and `SUSPEND_INTERRUPTS(flags, body)`. -/
inductive Body
  | code (c : Code Unit) (neutral : Prog.Safe (fun _ _ => True) Op.IrqNeutral c)
  | seq (b c : Body)
  | suspended (b : Body)

/-- The program of a body. -/
def Body.program : Body → Code Unit
  | .code c _ => c
  | .seq b c => b.program.bind fun _ => c.program
  | .suspended b => suspendInterrupts b.program

/-- How deep the sections are nested. -/
def Body.depth : Body → Nat
  | .code _ _ => 0
  | .seq b c => max b.depth c.depth
  | .suspended b => b.depth + 1

/-- **Every section of the run is bracketed**: interrupts are disabled when its code
begins and after every operation of the code, and after the section they are enabled if
and only if they were on entry. -/
def Body.Bracketed : Body → Bool → List Answered → Prop
  | .code _ _, _, _ => True
  | .seq b c, i, t => ∃ t₁ t₂, t = t₁ ++ t₂ ∧ b.program.Traces t₁ () ∧ c.program.Traces t₂ () ∧
      b.Bracketed i t₁ ∧ c.Bracketed (irqsAfter i t₁) t₂
  | .suspended b, i, t => ∃ flags t', t = opening flags ++ (t' ++ closing flags) ∧
      b.program.Traces t' () ∧
        (∀ t₁, t₁ <+: t' → irqsAfter (irqsAfter i (opening flags)) t₁ = false) ∧
          irqsAfter i t = i ∧ b.Bracketed (irqsAfter i (opening flags)) t'

theorem irqsAfter_section (flags : Bool) :
    irqsAfter i (opening flags ++ (t ++ closing flags)) = true := by
  rw [irqsAfter_append, irqsAfter_append]
  rfl

theorem neutral_of_depth {b : Body} (hb : b.depth = 0) (h : b.program.Traces t ()) :
    ∀ e ∈ t, e.1.IrqNeutral := by
  induction b generalizing t with
  | code c neutral => exact ops_of_safe neutral h
  | seq b c ihb ihc =>
    obtain ⟨hb, hc⟩ := Nat.max_eq_zero_iff.mp hb
    obtain ⟨t₁, _, t₂, rfl, h₁, h₂⟩ := Prog.traces_bind.mp h
    exact List.forall_mem_append.mpr ⟨ihb hb h₁, ihc hc h₂⟩
  | suspended b ih => exact absurd hb (Nat.succ_ne_zero _)

/-- **After a section interrupts are enabled.** -/
theorem irqsAfter_program {b : Body} (h : b.program.Traces t ()) :
    irqsAfter i t = if b.depth = 0 then i else true := by
  induction b generalizing i t with
  | code c neutral => exact irqsAfter_of_neutral (ops_of_safe neutral h)
  | seq b c ihb ihc =>
    obtain ⟨t₁, _, t₂, rfl, h₁, h₂⟩ := Prog.traces_bind.mp h
    rw [irqsAfter_append, ihc h₂, ihb h₁, Body.depth]
    by_cases hb : b.depth = 0 <;> by_cases hc : c.depth = 0 <;> simp [hb, hc]
  | suspended b ih =>
    obtain ⟨flags, t', rfl, -⟩ := suspendInterrupts_traces h
    rw [irqsAfter_section]
    rfl

/-- **Which runs are bracketed**: those of a body without sections, and those of a body
without a section inside another that is entered with interrupts enabled. -/
theorem bracketed_of_traces {b : Body} (h : b.program.Traces t ()) :
    b.Bracketed i t ↔ b.depth = 0 ∨ (b.depth = 1 ∧ i = true) := by
  induction b generalizing i t with
  | code c neutral => exact iff_of_true trivial (Or.inl rfl)
  | seq b c ihb ihc =>
    have hmid : ∀ {t₁}, b.program.Traces t₁ () →
        irqsAfter i t₁ = if b.depth = 0 then i else true := irqsAfter_program
    have hparts : ((b.depth = 0 ∨ (b.depth = 1 ∧ i = true)) ∧
        (c.depth = 0 ∨ (c.depth = 1 ∧ (if b.depth = 0 then i else true) = true))) ↔
          (b.seq c).depth = 0 ∨ ((b.seq c).depth = 1 ∧ i = true) := by
      rw [Body.depth]
      by_cases hb : b.depth = 0
      · rw [if_pos hb, hb, Nat.zero_max]
        exact and_iff_right (Or.inl rfl)
      · rw [if_neg hb]
        cases i <;> simp only [and_false, and_true, or_false, Bool.false_eq_true] <;> omega
    rw [← hparts]
    constructor
    · rintro ⟨t₁, t₂, rfl, h₁, h₂, hb, hc⟩
      rw [ihb h₁] at hb
      rw [ihc h₂, hmid h₁] at hc
      exact ⟨hb, hc⟩
    · rintro ⟨hb, hc⟩
      obtain ⟨t₁, _, t₂, rfl, h₁, h₂⟩ := Prog.traces_bind.mp h
      refine ⟨t₁, t₂, rfl, h₁, h₂, (ihb h₁).mpr hb, (ihc h₂).mpr ?_⟩
      rw [hmid h₁]
      exact hc
  | suspended b ih =>
    have hdepth : b.suspended.depth = b.depth + 1 := rfl
    constructor
    · rintro ⟨flags, t', rfl, ht', hoff, hexit, -⟩
      rw [irqsAfter_section] at hexit
      -- with a section in it the code would end with interrupts enabled
      have hend := hoff t' (List.prefix_refl t')
      rw [irqsAfter_program ht'] at hend
      have hnone : b.depth = 0 := by
        by_contra hne
        rw [if_neg hne] at hend
        cases hend
      exact Or.inr ⟨by rw [hdepth, hnone], hexit.symm⟩
    · intro hcond
      obtain ⟨flags, t', rfl, ht'⟩ := suspendInterrupts_traces h
      obtain ⟨hone, rfl⟩ := hcond.resolve_left (Nat.succ_ne_zero b.depth)
      have hnone : b.depth = 0 := Nat.succ.inj hone
      refine ⟨flags, t', rfl, ht', fun t₁ ht₁ => ?_, irqsAfter_section flags,
        (ih ht').mpr (Or.inl hnone)⟩
      exact irqsAfter_of_neutral fun e he => neutral_of_depth hnone ht' e (ht₁.subset he)

/-! ## Runs -/

/-- A run of a body, entered with interrupts enabled or not. -/
structure BodyRun where
  body : Body
  enabled : Bool
  trace : List Answered
  ran : body.program.Traces trace ()
  records : Records enabled trace

/-- **When the sections of a run are bracketed**: the body has none, or interrupts are
enabled on entry and no section is inside another. -/
theorem bracketed_iff (r : BodyRun) : r.body.Bracketed r.enabled r.trace ↔
    r.body.depth = 0 ∨ (r.body.depth = 1 ∧ r.enabled = true) :=
  bracketed_of_traces r.ran

theorem records_of_neutral (h : ∀ e ∈ t, e.1.IrqNeutral) : Records i t := by
  induction t with
  | nil => trivial
  | cons e t ih =>
    obtain ⟨he, ht⟩ := List.forall_mem_cons.mp h
    refine ⟨?_, ?_⟩
    · obtain ⟨o, r⟩ := e
      cases o
      case localIrqSave => cases he true
      all_goals trivial
    · rw [he]
      exact ih ht

/-- Every body can be run from either state. -/
theorem exists_bodyRun (b : Body) (i : Bool) : ∃ r : BodyRun, r.body = b ∧ r.enabled = i := by
  suffices h : ∃ t, b.program.Traces t () ∧ Records i t by
    obtain ⟨t, hran, hrecords⟩ := h
    exact ⟨⟨b, i, t, hran, hrecords⟩, rfl, rfl⟩
  induction b generalizing i with
  | code c neutral =>
    have hran := Prog.traces_respond (quiet 0 ⟨0, 0⟩) c
    exact ⟨_, hran, records_of_neutral (ops_of_safe neutral hran)⟩
  | seq b c ihb ihc =>
    obtain ⟨t₁, h₁, hr₁⟩ := ihb i
    obtain ⟨t₂, h₂, hr₂⟩ := ihc (irqsAfter i t₁)
    exact ⟨t₁ ++ t₂, Prog.traces_bind.mpr ⟨t₁, (), t₂, rfl, h₁, h₂⟩,
      records_append.mpr ⟨hr₁, hr₂⟩⟩
  | suspended b ih =>
    obtain ⟨t, h, hr⟩ := ih false
    refine ⟨opening i ++ (t ++ closing i), ?_, ?_⟩
    · exact Prog.traces_perform.mpr ⟨i, _, rfl, Prog.traces_perform.mpr ⟨(), _, rfl,
        Prog.traces_bind.mpr ⟨t, (), closing i, rfl, h, Prog.traces_perform.mpr ⟨(), _, rfl,
          Prog.traces_op.mpr ⟨(), _, rfl, .ret ()⟩⟩⟩⟩⟩
    · exact records_append.mpr ⟨⟨rfl, trivial, trivial⟩,
        records_append.mpr ⟨hr, trivial, trivial, trivial⟩⟩

/-- **A section inside another** breaks the outer one, also when interrupts are enabled on
entry. -/
theorem bracketed_fails :
    ¬ ∀ r : BodyRun, r.body.Bracketed r.enabled r.trace := by
  intro hall
  obtain ⟨r, hbody, -⟩ :=
    exists_bodyRun (.suspended (.suspended (.code (.ret ()) (Prog.safe_ret ())))) true
  have h := (bracketed_iff r).mp (hall r)
  have hdepth : r.body.depth = 2 := by
    rw [hbody]
    rfl
  omega

/-! ## The loops of `wall_timer.c` -/

/-- A loop is neutral, whatever function it calls. -/
theorem timingLoop_neutral (l : TimingLoop) :
    Prog.Safe (fun _ _ => True) Op.IrqNeutral (timingLoop l) := by
  have hcall : ∀ f : InstrF, Prog.Safe (fun _ _ => True) Op.IrqNeutral f.call := by
    intro f
    cases f
    case movntdqa | movntdq | clflush =>
      exact Prog.safe_op (fun _ => rfl) fun _ _ => Prog.safe_op (fun _ => rfl) fun _ _ =>
        Prog.safe_ret _
    all_goals exact Prog.safe_op (fun _ => rfl) fun _ _ => Prog.safe_ret _
  refine Prog.safe_op (fun _ => rfl) fun _ _ => ?_
  refine (Prog.safe_forFrom (fun _ _ => hcall _) _ _ _).bind fun _ => ?_
  exact Prog.safe_op (fun _ => rfl) fun _ _ => Prog.safe_op (fun _ => rfl) fun _ _ =>
    Prog.safe_ret _

/-- A loop without `SUSPEND_INTERRUPTS` is neutral with its wrapper. -/
theorem wallTimingLoop_neutral {l : TimingLoop} (h : l.guard ≠ .suspendInterrupts) :
    Prog.Safe (fun _ _ => True) Op.IrqNeutral (wallTimingLoop l) := by
  unfold wallTimingLoop
  cases hg : l.guard with
  | plain => exact timingLoop_neutral l
  | suspendInterrupts => exact absurd hg h
  | bootFeature f =>
    refine Prog.safe_op (fun _ => rfl) fun has _ => ?_
    cases has
    · exact Prog.safe_ret _
    · exact timingLoop_neutral l
  | kmalloc =>
    refine Prog.safe_op (fun _ => rfl) fun (vmemAligned : BitVec 64) _ => ?_
    show Prog.Safe _ _ (if vmemAligned ≠ 0 then timingLoop l else prInfo (.wallZero l.printName))
    split
    · exact timingLoop_neutral l
    · exact Prog.safe_op (fun _ => rfl) fun _ _ => Prog.safe_ret _

/-- A loop in its wrapper, as a body. -/
def Body.ofLoop (l : TimingLoop) : Body :=
  if h : l.guard = .suspendInterrupts then .suspended (.code (timingLoop l) (timingLoop_neutral l))
  else .code (wallTimingLoop l) (wallTimingLoop_neutral h)

/-- The loops of a table. -/
def Body.ofLoops : List TimingLoop → Body
  | [] => .code (.ret ()) (Prog.safe_ret ())
  | l :: ls => .seq (.ofLoop l) (.ofLoops ls)

theorem Body.program_ofLoops (ls : List TimingLoop) :
    (Body.ofLoops ls).program = wallTimingLoops ls := by
  induction ls with
  | nil => rfl
  | cons l ls ih =>
    have hloop : (Body.ofLoop l).program = wallTimingLoop l := by
      unfold Body.ofLoop
      split
      case isTrue h =>
        rw [wallTimingLoop, h]
        rfl
      case isFalse => rfl
    show (Body.ofLoop l).program.bind (fun _ => (Body.ofLoops ls).program) = _
    rw [hloop, ih]
    rfl

theorem Body.depth_ofLoops_le (ls : List TimingLoop) : (Body.ofLoops ls).depth ≤ 1 := by
  induction ls with
  | nil => exact Nat.zero_le 1
  | cons l ls ih =>
    refine Nat.max_le.mpr ⟨?_, ih⟩
    unfold Body.ofLoop
    split
    · exact Nat.le_refl 1
    · exact Nat.zero_le 1

/-- **The loops of a table are bracketed** when they are entered with interrupts enabled,
and interrupts are enabled after them. -/
theorem wallTimingLoops_bracketed {ls : List TimingLoop}
    (h : (wallTimingLoops ls).Traces t ()) :
    (Body.ofLoops ls).Bracketed true t ∧ irqsAfter true t = true := by
  rw [← Body.program_ofLoops] at h
  have hdepth := Body.depth_ofLoops_le ls
  refine ⟨(bracketed_of_traces h).mpr ?_, ?_⟩
  · rcases Nat.le_one_iff_eq_zero_or_eq_one.mp hdepth with h0 | h1
    · exact Or.inl h0
    · exact Or.inr ⟨h1, rfl⟩
  · rw [irqsAfter_program h, ite_self]

end EcrToolkit
