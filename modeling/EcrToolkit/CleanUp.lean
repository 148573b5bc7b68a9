import EcrToolkit.ScriptRun

/-!
# The module is removed again

Three commands of `ecr.sh` remove the module: the `rmmod` after the measurements, with
the operand, and the ones of the two handlers, with the first word of the command line.
A run that does not come to the first of them has the handlers only (`removed_iff`), and
they name the module if the operand was the first word (`cleansUp_iff`).
-/
namespace EcrToolkit.EcrSh

open AtomicProgram TextTools Transitions

/-! ## What a run has done so far -/

section
variable {ι : Type}

/-- The handlers have removed their argument, or they will. -/
def Process.WillRemove (first : Option Line) (i : ι) (evs : List (Event ι)) (p : Process) : Prop :=
  .performed i true (.rmmod first) ∈ evs ∨
    p.activity.isExited = false ∧ (p.onExit = some first ∨
      ∃ q, p.activity = .running true q ∧
        Prog.Performs (fun _ _ => True) (· = .rmmod first) q)

/-- Run `i` after the events `evs`. -/
structure Process.History (first operand : Option Line) (i : ι) (evs : List (Event ι)) (p : Process)
    (φ : Option Stage) : Prop where
  sound : p.Sound first operand φ
  /-- Only the operand is inserted, by the script. -/
  operand : ∀ w, .inserted i w ∈ evs → operand = some w
  /-- The handlers remove the first word. -/
  handlers : ∀ arg, .performed i true (.rmmod arg) ∈ evs → arg = first
  later : ∀ w, .inserted i w ∈ evs → ∀ t, φ = some t → t = .inserted ∨ t = .done
  remove : ∀ w, .inserted i w ∈ evs → φ = none → p.WillRemove first i evs

variable {first operand : Option Line} {i : ι} {evs : List (Event ι)} {p : Process}
  {φ : Option Stage}

/-- After `insmod` both handlers are set, or the `EXIT` handler has been started. -/
theorem Process.History.handlers_set (h : p.History first operand i evs φ) {w : Line}
    (hw : .inserted i w ∈ evs) (hp : p.activity.isExited = false) :
    p.onInt = some first ∧ p.WillRemove first i evs := by
  have hsound := h.sound
  cases hsound with
  | @script t q hq =>
    -- the traps were set before `insmod`
    rcases h.later w hw t rfl with rfl | rfl
    · exact ⟨rfl, Or.inr ⟨rfl, Or.inl rfl⟩⟩
    · exact ⟨rfl, Or.inr ⟨rfl, Or.inl rfl⟩⟩
  | handler he hq => exact ⟨rfl, h.remove w hw rfl⟩
  | exited => cases hp

theorem removeAndExit_performs (first : Option Line) :
    Prog.Performs (fun _ _ => True) (· = .rmmod first) (removeAndExit first) := Or.inl rfl

/-- **Ctrl-C** starts a handler that removes the first word. -/
theorem Process.History.interrupt (h : p.History first operand i evs φ)
    (hp : p.activity.isExited = false) : p.interrupt.History first operand i evs none where
  sound := h.sound.interrupt hp
  operand := h.operand
  handlers := h.handlers
  later := nofun
  remove w hw _ := by
    obtain ⟨hint, -⟩ := h.handlers_set hw hp
    rw [Process.interrupt, hint]
    exact Or.inr ⟨rfl, Or.inr ⟨_, rfl, removeAndExit_performs first⟩⟩

/-- **At its end** the run starts the other handler, or it has removed the first word. -/
theorem Process.History.leave (h : p.History first operand i evs φ) {inHandler : Bool}
    {status : Nat} (hp : p.activity = .running inHandler (.ret status)) :
    p.leave.History first operand i evs none where
  sound := h.sound.leave (by rw [hp]; rfl)
  operand := h.operand
  handlers := h.handlers
  later := nofun
  remove w hw _ := by
    obtain ⟨-, hdone | ⟨-, hexit | ⟨q, hq, hperforms⟩⟩⟩ := h.handlers_set hw (by rw [hp]; rfl)
    · exact Or.inl hdone
    · rw [Process.leave, hexit]
      exact Or.inr ⟨rfl, Or.inr ⟨_, rfl, removeAndExit_performs first⟩⟩
    · -- a handler does not end before its `rmmod`
      rw [hp] at hq
      cases hq
      exact hperforms.elim

/-- Without an `insmod` or after it the module is still to be removed or is not there. -/
theorem Stage.Moves.later {t t' : Stage} {c : Command} {r : c.Res}
    (h : t.Moves first operand c r t') (ht : t = .inserted ∨ t = .done) :
    t' = .inserted ∨ t' = .done := by
  cases h with
  | quiet => exact ht
  | inserted => exact Or.inl rfl
  | refused | removed => exact Or.inr rfl
  | trapInt | trapExit => rcases ht with ht | ht <;> cases ht

theorem Stage.Moves.insmod {t t' : Stage} {c : Command} {r : c.Res} {arg : Option Line}
    (h : t.Moves first operand c r t') (hc : c = .insmod arg) :
    arg = operand ∧ (t' = .inserted ∨ t' = .done) := by
  cases h with
  | quiet t hq =>
    subst hc
    cases hq
  | inserted =>
    cases hc
    exact ⟨rfl, Or.inl rfl⟩
  | refused =>
    cases hc
    exact ⟨rfl, Or.inr rfl⟩
  | removed | trapInt | trapExit => cases hc

theorem Stage.Moves.trapInt_stage {t t' : Stage} {c : Command} {r : c.Res} {arg : Option Line}
    (h : t.Moves first operand c r t') (hc : c = .trapInt arg) : t = .start := by
  cases h with
  | trapInt => rfl
  | quiet t hq =>
    subst hc
    cases hq
  | inserted | refused | removed | trapExit => cases hc

/-- **One command more.** -/
theorem Process.History.perform (h : p.History first operand i evs φ) (file : Line) (s : State ι)
    {b : Bool} {c : Command} {k : c.Res → Shell Nat} (hp : p.activity = .running b (.op c k))
    (r : c.Res) :
    ∃ φ', (p.next b c (k r)).History first operand i (evs ++ s.events file i b c r) φ' := by
  cases b with
  | true =>
    -- the `rmmod` of a handler: nothing is inserted, and the first word has been removed
    obtain ⟨rfl, -, rfl, hsound⟩ := h.sound.handler_next hp r
    have hold : ∀ w, .inserted i w ∈ evs ++ s.events file i true (.rmmod first) r →
        .inserted i w ∈ evs := by
      intro w hw
      rcases List.mem_append.mp hw with hw | hw
      · exact hw
      · cases (inserted_mem_events hw).2
    refine ⟨none, hsound, fun w hw => h.operand w (hold w hw), ?_, nofun, fun w hw _ => ?_⟩
    · intro arg harg
      rcases List.mem_append.mp harg with harg | harg
      · exact h.handlers arg harg
      · exact Command.rmmod.inj (performed_mem_events.mp harg).2.2
    · exact Or.inl (List.mem_append.mpr (Or.inr (performed_mem_events.mpr ⟨rfl, rfl, rfl⟩)))
  | false =>
    obtain ⟨t, t', rfl, -, hmoves, hsound⟩ := h.sound.script_next hp r
    refine ⟨some t', hsound, fun w hw => ?_, ?_, fun w hw t₁ ht₁ => ?_, nofun⟩
    · rcases List.mem_append.mp hw with hw | hw
      · exact h.operand w hw
      · exact (hmoves.insmod (inserted_mem_events hw).2).1.symm
    · intro arg harg
      rcases List.mem_append.mp harg with harg | harg
      · exact h.handlers arg harg
      · cases (performed_mem_events.mp harg).2.1
    · obtain rfl := Option.some.inj ht₁
      rcases List.mem_append.mp hw with hw | hw
      · exact hmoves.later (h.later w hw t rfl)
      · exact (hmoves.insmod (inserted_mem_events hw).2).2

/-- What the other runs do. -/
theorem Process.History.append (h : p.History first operand i evs φ) {es : List (Event ι)}
    (hinserted : ∀ w, .inserted i w ∉ es) (hperformed : ∀ b c, .performed i b c ∉ es) :
    p.History first operand i (evs ++ es) φ where
  sound := h.sound
  operand w hw := h.operand w ((List.mem_append.mp hw).resolve_right (hinserted w))
  handlers arg harg := h.handlers arg ((List.mem_append.mp harg).resolve_right (hperformed _ _))
  later w hw := h.later w ((List.mem_append.mp hw).resolve_right (hinserted w))
  remove w hw hφ := by
    have hwill := h.remove w ((List.mem_append.mp hw).resolve_right (hinserted w)) hφ
    exact hwill.imp_left fun hdone => List.mem_append.mpr (Or.inl hdone)

end

/-! ## Every run -/

section
variable {ι : Type} [DecidableEq ι] {enhanced : Bool} {args : ι → List Word} {file : Line}
  {evs : List (Event ι)} {s : State ι}

/-- **One step**, of run `i` or of another one. -/
theorem Process.History.step {first operand : Option Line} {i : ι} {φ : Option Stage}
    (hφ : (s.run i).History first operand i evs φ) {a : Action ι} {es : List (Event ι)}
    {s' : State ι} (hs : EcrSh.step file s a = some (es, s')) :
    ∃ φ', (s'.run i).History first operand i (evs ++ es) φ' := by
  cases stepped_of_step hs with
  | interrupted j hj =>
    rw [List.append_nil]
    by_cases hij : i = j
    · subst hij
      rw [setRun_run_self]
      exact ⟨none, hφ.interrupt hj⟩
    · rw [setRun_run_of_ne s hij]
      exact ⟨φ, hφ⟩
  | left j answer hj =>
    -- `exit`, or the end of the script
    rw [List.append_nil]
    by_cases hij : i = j
    · subst hij
      rw [setRun_run_self]
      exact ⟨none, hφ.leave hj⟩
    · rw [setRun_run_of_ne s hij]
      exact ⟨φ, hφ⟩
  | performed j answer hj r hr =>
    by_cases hij : i = j
    · subst hij
      rw [execute_run_self]
      exact hφ.perform file s hj r
    · rw [execute_run_of_ne file s hij]
      exact ⟨φ, hφ.append (fun w hw => hij (inserted_mem_events hw).1) fun b c hc =>
        hij (performed_mem_events.mp hc).1⟩

/-- **What a run has done and will do**, whatever the others do. -/
theorem history_of_run (h : (system file).Run System.Any (initial enhanced args) evs s) (i : ι) :
    ∃ φ, (s.run i).History (firstWord (args i)) (operandOf enhanced (args i)) i evs φ := by
  refine h.invariant (I := fun evs s => ∃ φ, (s.run i).History (firstWord (args i))
    (operandOf enhanced (args i)) i evs φ) ?_ ?_
  · exact ⟨some .start, Process.sound_start enhanced (args i), nofun, nofun, nofun, nofun⟩
  · rintro evs s a es s' ⟨φ, hφ⟩ - hs
    exact hφ.step hs

/-- **Who removed the module** that run `i` inserted, by the time it has exited: its
handlers, if they name it, or the script itself. -/
theorem removed_iff (h : (system file).Run System.Any (initial enhanced args) evs s) {i : ι}
    (hexited : (s.run i).activity = .exited) {w : Line} (hw : .inserted i w ∈ evs) :
    (∃ b, .performed i b (.rmmod (some w)) ∈ evs) ↔
      firstWord (args i) = some w ∨ .performed i false (.rmmod (some w)) ∈ evs := by
  obtain ⟨φ, hφ⟩ := history_of_run h i
  constructor
  · rintro ⟨b, hb⟩
    cases b with
    | false => exact Or.inr hb
    | true => exact Or.inl (hφ.handlers _ hb).symm
  · rintro (hfirst | hscript)
    · rcases hφ.remove w hw (hφ.sound.phase_of_exited hexited) with hdone | ⟨hrunning, -⟩
      · exact ⟨true, hfirst ▸ hdone⟩
      · rw [hexited] at hrunning
        cases hrunning
    · exact ⟨false, hscript⟩

/-- Whatever run `i` has inserted, it has removed by the time it exits. -/
def CleansUp (enhanced : Bool) (args : ι → List Word) (file : Line) (i : ι) : Prop :=
  ∀ evs s, (system file).Run System.Any (initial enhanced args) evs s →
    (s.run i).activity = .exited → ∀ w, .inserted i w ∈ evs →
      ∃ b, .performed i b (.rmmod (some w)) ∈ evs

/-! ## Ctrl-C after `insmod` -/

/-- A run comes to `p`, with `P` of its events and the state, and has not removed `w`. -/
def Reaches (enhanced : Bool) (args : ι → List Word) (file : Line) (i : ι) (w : Line)
    (P : List (Event ι) → State ι → Prop) (p : Process) : Prop :=
  ∃ evs s, (system file).Run System.Any (initial enhanced args) evs s ∧ s.run i = p ∧ P evs s ∧
    ∀ b, .performed i b (.rmmod (some w)) ∉ evs

variable {i : ι} {w : Line} {P Q : List (Event ι) → State ι → Prop} {p : Process}

theorem Reaches.perform (h : Reaches enhanced args file i w P p) {b : Bool} {c : Command}
    {k : c.Res → Shell Nat} (hp : p.activity = .running b (.op c k)) (hc : c ≠ .rmmod (some w))
    (r : c.Res) (answer : (c : Command) → c.Res)
    (hQ : ∀ evs s, P evs s → s.answer file c (answer c) = r ∧
      Q (evs ++ s.events file i b c r) (s.execute file i b c k r)) :
    Reaches enhanced args file i w Q (p.next b c (k r)) := by
  obtain ⟨evs, s, hrun, rfl, hP, hnot⟩ := h
  obtain ⟨hr, hQ⟩ := hQ evs s hP
  have hs : (system file).step s (.proceed i answer) =
      some (s.events file i b c r, s.execute file i b c k r) := by
    rw [← hr]
    exact step_perform file answer hp
  refine ⟨_, _, .step hrun trivial hs, execute_run_self file s i b c k r, hQ, fun b' hb' => ?_⟩
  rcases List.mem_append.mp hb' with hb' | hb'
  · exact hnot b' hb'
  · exact hc (performed_mem_events.mp hb').2.2.symm

theorem Reaches.leave (h : Reaches enhanced args file i w P p) {b : Bool} {status : Nat}
    (hp : p.activity = .running b (.ret status)) (answer : (c : Command) → c.Res)
    (hQ : ∀ evs s, P evs s → Q evs (s.setRun i p.leave)) :
    Reaches enhanced args file i w Q p.leave := by
  obtain ⟨evs, s, hrun, rfl, hP, hnot⟩ := h
  have hs : (system file).step s (.proceed i answer) = some ([], s.setRun i (s.run i).leave) :=
    step_leave file answer hp
  refine ⟨evs ++ [], _, .step hrun trivial hs, setRun_run_self s i _, ?_, ?_⟩
  · rw [List.append_nil]
    exact hQ evs s hP
  · rw [List.append_nil]
    exact hnot

theorem Reaches.interrupt (h : Reaches enhanced args file i w P p)
    (hp : p.activity.isExited = false) (hQ : ∀ evs s, P evs s → Q evs (s.setRun i p.interrupt)) :
    Reaches enhanced args file i w Q p.interrupt := by
  obtain ⟨evs, s, hrun, rfl, hP, hnot⟩ := h
  have hs : (system file).step s (.interrupt i) = some ([], s.setRun i (s.run i).interrupt) :=
    step_interrupt file hp
  refine ⟨evs ++ [], _, .step hrun trivial hs, setRun_run_self s i _, ?_, ?_⟩
  · rw [List.append_nil]
    exact hQ evs s hP
  · rw [List.append_nil]
    exact hnot

/-- The superuser runs the script, and `insmod` succeeds. -/
def asRoot : (c : Command) → c.Res
  | .idU => (0 : Nat)
  | .insmod _ => true
  | .dmesg => ([] : List Line)
  | .trapInt _ | .trapExit _ | .rmmod _ | .modIoctl _ | .read => ()

/-- The script comes to the end of `insmod`. -/
theorem reaches_inserted (file : Line) {o : Options} {ps : List Line}
    (hparse : parseArguments enhanced ((args i).map (·.chars)) = .run o (w :: ps)) :
    Reaches enhanced args file i w (fun evs _ => .inserted i w ∈ evs)
      ⟨some (firstWord (args i)), some (firstWord (args i)),
        .running false (allocate o (some w))⟩ := by
  have hstart : Reaches enhanced args file i w (fun _ s => s.loaded = none)
      (.start enhanced (args i)) := ⟨[], _, .start, rfl, rfl, nofun⟩
  -- nobody else moves, so the module is not there before
  have htraps : Reaches enhanced args file i w (fun _ s => s.loaded = none)
      ⟨some (firstWord (args i)), some (firstWord (args i)),
        .running false (insert o (some w))⟩ := by
    have h1 := hstart.perform rfl nofun (0 : Nat) asRoot (Q := fun _ s => s.loaded = none)
      fun _ _ hl => ⟨rfl, hl⟩
    have h2 := h1.perform rfl nofun () asRoot (Q := fun _ s => s.loaded = none)
      fun _ _ hl => ⟨rfl, hl⟩
    have h3 := h2.perform rfl nofun () asRoot (Q := fun _ s => s.loaded = none)
      fun _ _ hl => ⟨rfl, hl⟩
    have h4 : Reaches enhanced args file i w (fun _ s => s.loaded = none)
        ⟨some (firstWord (args i)), some (firstWord (args i)),
          .running false (parameters enhanced ((args i).map (·.chars)))⟩ := h3
    unfold parameters at h4
    rw [hparse] at h4
    exact h4
  refine htraps.perform rfl nofun true asRoot fun evs s hl => ⟨?_, ?_⟩
  · show (true && (w ≠ file || s.loaded.isNone)) = true
    rw [hl, Option.isNone_none, Bool.or_true]
    rfl
  · exact List.mem_append.mpr (Or.inr (List.mem_cons_of_mem _ (List.mem_singleton_self _)))

/-- **Both handlers name the first word**, and the run is over. -/
theorem reaches_exited (file : Line) (hfirst : firstWord (args i) ≠ some w) {o : Options}
    {ps : List Line} (hparse : parseArguments enhanced ((args i).map (·.chars)) = .run o (w :: ps)) :
    Reaches enhanced args file i w (fun evs _ => .inserted i w ∈ evs)
      ⟨some (firstWord (args i)), none, .exited⟩ := by
  have hrmmod : Command.rmmod (firstWord (args i)) ≠ .rmmod (some w) := fun h =>
    hfirst (Command.rmmod.inj h)
  -- Ctrl-C, the `INT` handler, `exit 0`, the `EXIT` handler
  have hctrlC := (reaches_inserted file hparse).interrupt rfl
    (Q := fun evs _ => .inserted i w ∈ evs) fun _ _ h => h
  have hremoved := hctrlC.perform rfl hrmmod () asRoot (Q := fun evs _ => .inserted i w ∈ evs)
    fun _ _ h => ⟨rfl, List.mem_append.mpr (Or.inl h)⟩
  have hfinish := hremoved.leave rfl asRoot (Q := fun evs _ => .inserted i w ∈ evs) fun _ _ h => h
  have hagain := hfinish.perform rfl hrmmod () asRoot (Q := fun evs _ => .inserted i w ∈ evs)
    fun _ _ h => ⟨rfl, List.mem_append.mpr (Or.inl h)⟩
  exact hagain.leave rfl asRoot fun _ _ h => h

/-- The first word and the operand of any command line. -/
theorem cleansUp_iff_firstWord : CleansUp enhanced args file i ↔
    ∀ w, operandOf enhanced (args i) = some w → firstWord (args i) = some w := by
  constructor
  · intro h w hw
    by_contra hfirst
    obtain ⟨o, ps, hparse⟩ := Parsed.operand_eq_some_iff.mp hw
    obtain ⟨evs, s, hrun, hp, hinserted, hnot⟩ := reaches_exited file hfirst hparse
    obtain ⟨b, hb⟩ := h evs s hrun (by rw [hp]) w hinserted
    exact hnot b hb
  · intro h evs s hrun hexited w hw
    obtain ⟨φ, hφ⟩ := history_of_run hrun i
    exact (removed_iff hrun hexited hw).mpr (Or.inl (h w (hφ.operand w hw)))

theorem firstWord_eq_iff {words : List Word} {v : Word} :
    firstWord words = some v.chars ↔ words.head? = some v := by
  have hinj : Function.Injective Word.chars := fun _ _ h => Word.ext h
  rw [firstWord, List.head?_map]
  exact (Option.map_injective hinj).eq_iff (b := some v)

/-- **When the module is removed again**: for one command line, on every exit path, if the
operand is its first word, or it asks for help; on one exit path, if the operand is the first
word, or the script came to its own `rmmod`. -/
theorem cleansUp_iff (c : CommandLine enhanced) (args : ι → List Word) (file : Line) (i : ι) :
    (CleansUp enhanced (Function.update args i c.words) file i ↔
      c.words.head? = some c.operand ∨ AsksForHelp c.options) ∧
    ∀ evs s, (system file).Run System.Any
        (initial enhanced (Function.update args i c.words)) evs s →
      (s.run i).activity = .exited → ∀ w, .inserted i w ∈ evs →
        ((∃ b, .performed i b (.rmmod (some w)) ∈ evs) ↔
          c.words.head? = some c.operand ∨ .performed i false (.rmmod (some w)) ∈ evs) := by
  have hwords : Function.update args i c.words i = c.words := Function.update_self ..
  have hoperand : operandOf enhanced c.words =
      if AsksForHelp c.options then none else some c.operand.chars := c.operand_eq
  constructor
  · rw [cleansUp_iff_firstWord, hwords, hoperand]
    by_cases hhelp : AsksForHelp c.options
    · rw [if_pos hhelp]
      exact iff_of_true nofun (Or.inr hhelp)
    · rw [if_neg hhelp, or_iff_left hhelp, ← firstWord_eq_iff]
      exact ⟨fun h => h _ rfl, fun h w hw => Option.some.inj hw ▸ h⟩
  · intro evs s hrun hexited w hw
    obtain ⟨φ, hφ⟩ := history_of_run hrun i
    have hw' := hφ.operand w hw
    rw [hwords, hoperand] at hw'
    split at hw'
    case isTrue => cases hw'
    case isFalse =>
      rw [removed_iff hrun hexited hw, hwords, ← Option.some.inj hw', firstWord_eq_iff]

/-- `ecr.ko`. -/
def ecrKo : Word := .ofLine "ecr.ko".toList (by decide)

/-- `ecr.sh -k ecr.ko`. -/
def optionFirst : CommandLine true where
  words := [.ofLine "-k".toList (by decide), ecrKo]
  options := ["-k".toList]
  operand := ecrKo
  accepted := by decide +kernel

/-- **An option in front of the module** leaves it behind after Ctrl-C. -/
theorem cleansUp_fails : ¬ ∀ c : CommandLine true,
    CleansUp true (fun _ : Unit => c.words) c.operand.chars () := by
  intro hall
  have h := hall optionFirst
  rw [cleansUp_iff_firstWord] at h
  have hfirst := h optionFirst.operand.chars (by decide +kernel)
  exact absurd hfirst (by decide +kernel)

end

end EcrToolkit.EcrSh
