import EcrToolkit.CleanUp
import Mathlib.Data.Fintype.Basic

/-!
# Whose module a run removes

The handlers of a run remove the module named by its first word, whoever inserted it.
Runs that are kept apart (`Apart`) remove their own instances only (`removes_own`): a run
whose handlers name the module sets them while there is none, and nobody inserts one
until it is over.  Every other step gives some run, at the next Ctrl-C, the instance of
somebody else (`apart_of_removes_own`).
-/
namespace EcrToolkit.EcrSh

open AtomicProgram TextTools Transitions

section
variable {ι : Type} [DecidableEq ι]

/-! ## Runs kept apart -/

/-- Run `i` is not over, and Ctrl-C would make it remove the module. -/
def State.Armed (s : State ι) (file : Line) (i : ι) : Prop :=
  (s.run i).onInt = some (some file) ∧ (s.run i).activity.isExited = false

instance (s : State ι) (file : Line) (i : ι) : Decidable (s.Armed file i) :=
  inferInstanceAs (Decidable (_ ∧ _))

/-- `insmod` of the module succeeds. -/
def State.inserts (s : State ι) (file : Line) (answer : (c : Command) → c.Res) : Bool :=
  s.answer file (.insmod (some file)) (answer (.insmod (some file)))

/-- A step that keeps the runs apart: handlers that remove the module are set while it is
not loaded, and it is inserted while no other run has such handlers. -/
def Apart (file : Line) (s : State ι) : Action ι → Prop
  | .interrupt _ => True
  | .proceed i answer =>
    ((s.run i).command = some (.trapInt (some file)) → s.loaded = none) ∧
      ((s.run i).command = some (.insmod (some file)) → s.inserts file answer = true →
        ∀ j, j ≠ i → ¬ s.Armed file j)

instance [Fintype ι] (file : Line) (s : State ι) : ∀ a, Decidable (Apart file s a)
  | .interrupt _ => inferInstanceAs (Decidable True)
  | .proceed _ _ => inferInstanceAs (Decidable (_ ∧ _))

/-! ## The owner of the module -/

/-- The script has inserted the module and not removed it: then it is there; and a run
with handlers for it finds its own instance, or none. -/
structure Owned (enhanced : Bool) (args : ι → List Word) (file : Line) (s : State ι) : Prop where
  phase : ∀ i, ∃ φ, (s.run i).Sound (firstWord (args i)) (operandOf enhanced (args i)) φ ∧
    (φ = some .inserted → operandOf enhanced (args i) = some file → s.loaded = some i)
  armed : ∀ i, s.Armed file i → s.loaded = none ∨ s.loaded = some i

variable {enhanced : Bool} {args : ι → List Word} {file : Line} {s s' : State ι}

/-- What a step of run `i` can do to the module. -/
def Fair (file : Line) (i : ι) (s s' : State ι) : Prop :=
  s'.loaded = s.loaded ∨ (s'.loaded = none ∧ (s.loaded = none ∨ s.loaded = some i)) ∨
    (s'.loaded = some i ∧ s.loaded = none ∧ ∀ j, j ≠ i → ¬ s.Armed file j)

/-- **The other runs** do not notice. -/
theorem Owned.step (h : Owned enhanced args file s) {i : ι} {φ : Option Stage}
    (hother : ∀ j, j ≠ i → s'.run j = s.run j) (hfair : Fair file i s s')
    (hsound : (s'.run i).Sound (firstWord (args i)) (operandOf enhanced (args i)) φ)
    (hphase : φ = some .inserted → operandOf enhanced (args i) = some file → s'.loaded = some i)
    (harmed : s'.Armed file i → s'.loaded = none ∨ s'.loaded = some i) :
    Owned enhanced args file s' := by
  constructor
  · intro j
    by_cases hj : j = i
    · subst hj
      exact ⟨φ, hsound, hphase⟩
    obtain ⟨ψ, hψ, hlink⟩ := h.phase j
    refine ⟨ψ, by rwa [hother j hj], fun h1 h2 => ?_⟩
    have hloaded := hlink h1 h2
    -- what run `j` inserted is there, so run `i` neither removed nor inserted the module
    rcases hfair with he | ⟨-, he | he⟩ | ⟨-, he, -⟩
    · rw [he, hloaded]
    · rw [he] at hloaded
      cases hloaded
    · rw [he] at hloaded
      exact absurd (Option.some.inj hloaded).symm hj
    · rw [he] at hloaded
      cases hloaded
  · intro j hjarmed
    by_cases hj : j = i
    · subst hj
      exact harmed hjarmed
    have hsame : s.Armed file j := by
      rw [State.Armed, hother j hj] at hjarmed
      exact hjarmed
    rcases hfair with he | ⟨he, -⟩ | ⟨-, -, hnone⟩
    · rw [he]
      exact h.armed j hsame
    · exact Or.inl he
    · exact absurd hsame (hnone j hj)

/-- Ctrl-C and the end of a program change the run only. -/
theorem Owned.setRun (h : Owned enhanced args file s) {i : ι} {p : Process}
    (hsound : p.Sound (firstWord (args i)) (operandOf enhanced (args i)) none)
    (hint : p.onInt = (s.run i).onInt) (hi : (s.run i).activity.isExited = false) :
    Owned enhanced args file (s.setRun i p) := by
  refine h.step (φ := none) (fun j hj => setRun_run_of_ne s hj p) (Or.inl rfl)
    (by rwa [setRun_run_self]) nofun fun harmed => ?_
  rw [State.Armed, setRun_run_self, hint] at harmed
  exact h.armed i ⟨harmed.1, hi⟩

/-- **A handler** removes the instance of its own run. -/
theorem Owned.handler (h : Owned enhanced args file s) {i : ι} {c : Command}
    {k : c.Res → Shell Nat} (hi : (s.run i).activity = .running true (.op c k)) (r : c.Res) :
    Owned enhanced args file (s.execute file i true c k r) ∧
      ∀ j owner, .removed j owner ∈ s.events file i true c r → j = owner := by
  obtain ⟨φ, hφ, -⟩ := h.phase i
  obtain ⟨-, hint, rfl, hsound⟩ := hφ.handler_next hi r
  have hexited : (s.run i).activity.isExited = false := by rw [hi]; rfl
  have hown : firstWord (args i) = some file → s.loaded = none ∨ s.loaded = some i := fun hf =>
    h.armed i ⟨hint.trans (congrArg some hf), hexited⟩
  have hloaded : (s.execute file i true (.rmmod (firstWord (args i))) k r).loaded =
      if firstWord (args i) = some file then none else s.loaded := rfl
  constructor
  · refine h.step (φ := none) (fun j hj => execute_run_of_ne file s hj ..) ?_
      (by rwa [execute_run_self]) nofun fun harmed => ?_
    · unfold Fair
      rw [hloaded]
      by_cases hf : firstWord (args i) = some file
      · rw [if_pos hf]
        exact Or.inr (Or.inl ⟨rfl, hown hf⟩)
      · rw [if_neg hf]
        exact Or.inl rfl
    · rw [hloaded]
      split
      · exact Or.inl rfl
      · refine h.armed i ⟨?_, hexited⟩
        rw [State.Armed, execute_run_self] at harmed
        exact harmed.1
  · intro j owner hremoved
    obtain ⟨rfl, hc, howner⟩ := removed_mem_events hremoved
    rcases hown (Command.rmmod.inj hc) with hnone | hself
    · rw [hnone] at howner
      cases howner
    · rw [hself] at howner
      exact Option.some.inj howner

omit [DecidableEq ι] in
theorem loaded_of_inserts {answer : (c : Command) → c.Res} (h : s.inserts file answer = true) :
    s.loaded = none := by
  have hand : (answer (.insmod (some file)) && (file ≠ file || s.loaded.isNone)) = true := h
  rw [Bool.and_eq_true] at hand
  simpa using hand.2

/-- **The script** removes the instance that it inserted. -/
theorem Owned.script (h : Owned enhanced args file s) {i : ι} {answer : (c : Command) → c.Res}
    (hG : Apart file s (.proceed i answer)) {c : Command} {k : c.Res → Shell Nat}
    (hi : (s.run i).activity = .running false (.op c k)) {r : c.Res}
    (hr : r = s.answer file c (answer c)) :
    Owned enhanced args file (s.execute file i false c k r) ∧
      ∀ j owner, .removed j owner ∈ s.events file i false c r → j = owner := by
  obtain ⟨φ, hφ, hlink⟩ := h.phase i
  obtain ⟨t, t', rfl, htraps, hmoves, hsound⟩ := hφ.script_next hi r
  have hexited : (s.run i).activity.isExited = false := by rw [hi]; rfl
  have hcommand : (s.run i).command = some c := by rw [Process.command, hi]
  have hother : ∀ j, j ≠ i → (s.execute file i false c k r).run j = s.run j := fun j hj =>
    execute_run_of_ne file s hj ..
  -- the commands that leave the module and the `INT` trap alone
  have hquiet : s.loadedAfter file i c r = s.loaded →
      ((s.run i).next false c (k r)).onInt = (s.run i).onInt → (t' = .inserted → t = .inserted) →
      Owned enhanced args file (s.execute file i false c k r) := by
    intro hloaded hint ht
    refine h.step hother (Or.inl hloaded) (by rwa [execute_run_self]) (fun he hop => ?_)
      fun harmed => ?_
    · rw [execute_loaded, hloaded]
      exact hlink (congrArg some (ht (Option.some.inj he))) hop
    · rw [execute_loaded, hloaded]
      rw [State.Armed, execute_run_self, hint] at harmed
      exact h.armed i ⟨harmed.1, hexited⟩
  have hnothing : c ≠ .rmmod (some file) →
      ∀ j owner, .removed j owner ∈ s.events file i false c r → j = owner :=
    fun hc j owner hremoved => absurd (removed_mem_events hremoved).2.1 hc
  cases hmoves with
  | quiet t hc r =>
    cases c with
    | idU | modIoctl | dmesg | read => exact ⟨hquiet rfl rfl id, hnothing nofun⟩
    | trapInt | trapExit | insmod | rmmod => cases hc
  | trapInt r =>
    refine ⟨?_, hnothing nofun⟩
    refine h.step (φ := some .intSet) hother (Or.inl rfl) (by rwa [execute_run_self]) nofun
      fun harmed => ?_
    rw [State.Armed, execute_run_self] at harmed
    have hf : firstWord (args i) = some file := Option.some.inj harmed.1
    exact Or.inl (hG.1 (by rw [hcommand, hf]))
  | trapExit r => exact ⟨hquiet rfl rfl nofun, hnothing nofun⟩
  | refused => exact ⟨hquiet rfl rfl nofun, hnothing nofun⟩
  | inserted =>
    refine ⟨?_, hnothing nofun⟩
    by_cases hop : operandOf enhanced (args i) = some file
    · have hinserts : s.inserts file answer = true := by
        rw [hop] at hr
        exact hr.symm
      have hloaded : s.loadedAfter file i (.insmod (operandOf enhanced (args i))) true = some i :=
        if_pos (by rw [hop]; simp)
      have hapart := hG.2 (by rw [hcommand, hop]) hinserts
      exact h.step hother (Or.inr (Or.inr ⟨hloaded, loaded_of_inserts hinserts, hapart⟩))
        (by rwa [execute_run_self]) (fun _ _ => hloaded) fun _ => Or.inr hloaded
    · -- another module
      have hloaded : s.loadedAfter file i (.insmod (operandOf enhanced (args i))) true = s.loaded :=
        if_neg (by simp [hop])
      refine h.step hother (Or.inl hloaded) (by rwa [execute_run_self])
        (fun _ he => absurd he hop) fun harmed => ?_
      rw [execute_loaded, hloaded]
      rw [State.Armed, execute_run_self] at harmed
      exact h.armed i ⟨harmed.1, hexited⟩
  | removed r =>
    -- between the two commands nobody could take the module away
    have hown := hlink rfl
    constructor
    · by_cases hop : operandOf enhanced (args i) = some file
      · have hloaded : s.loadedAfter file i (.rmmod (operandOf enhanced (args i))) r = none :=
          if_pos hop
        exact h.step (φ := some .done) hother (Or.inr (Or.inl ⟨hloaded, Or.inr (hown hop)⟩))
          (by rwa [execute_run_self]) nofun fun _ => Or.inl hloaded
      · exact hquiet (if_neg hop) rfl nofun
    · intro j owner hremoved
      obtain ⟨rfl, hc, howner⟩ := removed_mem_events hremoved
      rw [hown (Command.rmmod.inj hc)] at howner
      exact Option.some.inj howner

theorem owned_step (h : Owned enhanced args file s) {a : Action ι} (hG : Apart file s a)
    {es : List (Event ι)} (hs : step file s a = some (es, s')) :
    Owned enhanced args file s' ∧ ∀ j owner, .removed j owner ∈ es → j = owner := by
  cases stepped_of_step hs with
  | interrupted i hi =>
    obtain ⟨φ, hφ, -⟩ := h.phase i
    exact ⟨h.setRun (hφ.interrupt hi) (Process.interrupt_onInt _) hi, nofun⟩
  | left i answer hi =>
    obtain ⟨φ, hφ, -⟩ := h.phase i
    have hexited : (s.run i).activity.isExited = false := by rw [hi]; rfl
    exact ⟨h.setRun (hφ.leave hexited) (Process.leave_onInt _) hexited, nofun⟩
  | @performed i answer b c k hi r hr =>
    cases b with
    | true => exact h.handler hi r
    | false => exact h.script hG hi hr

omit [DecidableEq ι] in
theorem owned_initial (enhanced : Bool) (args : ι → List Word) (file : Line) :
    Owned enhanced args file (initial enhanced args) where
  phase i := ⟨some .start, Process.sound_start enhanced (args i), nofun⟩
  armed _ _ := Or.inl rfl

/-! ## What the runs remove -/

/-- A run removes the module only if it inserted the instance that is loaded. -/
def RemovesOwn (evs : List (Event ι)) : Prop := ∀ i owner, .removed i owner ∈ evs → i = owner

theorem owned_of_run {evs : List (Event ι)}
    (h : (system file).Run (Apart file) (initial enhanced args) evs s) :
    Owned enhanced args file s ∧ RemovesOwn evs := by
  refine h.invariant (I := fun evs s => Owned enhanced args file s ∧ RemovesOwn evs)
    ⟨owned_initial enhanced args file, nofun⟩ ?_
  rintro evs s a es s' ⟨howned, hevs⟩ hG hs
  obtain ⟨howned', hes⟩ := owned_step howned hG hs
  refine ⟨howned', fun i owner hremoved => ?_⟩
  rcases List.mem_append.mp hremoved with hremoved | hremoved
  · exact hevs i owner hremoved
  · exact hes i owner hremoved

/-- **Runs that are kept apart** remove their own instances, in whatever order they take
their steps and wherever they are interrupted. -/
theorem removesOwn_of_apart (enhanced : Bool) (args : ι → List Word) (file : Line)
    {evs : List (Event ι)} {s : State ι}
    (h : (system file).Run (Apart file) (initial enhanced args) evs s) : RemovesOwn evs :=
  (owned_of_run h).2

/-! ## The condition is needed -/

/-- Ctrl-C, and a run removes what is loaded. -/
theorem foreign_of_armed {i owner : ι} (harmed : s.Armed file i) (hloaded : s.loaded = some owner)
    (hne : i ≠ owner) : ∃ evs t, (system file).Run System.Any s evs t ∧ ¬ RemovesOwn evs := by
  have hrun : (system file).Run System.Any s ([] ++ []) (s.setRun i (s.run i).interrupt) :=
    .step .start trivial (step_interrupt file harmed.2)
  have hactivity : ((s.setRun i (s.run i).interrupt).run i).activity =
      .running true (.op (.rmmod (some file)) fun _ => .ret 0) := by
    rw [setRun_run_self, Process.interrupt, harmed.1]
    rfl
  have hs' := step_perform file asRoot hactivity
  refine ⟨_, _, .step hrun trivial hs', fun hown => hne (hown i owner ?_)⟩
  refine List.mem_append.mpr (Or.inr (List.mem_cons_of_mem _ ?_))
  simp only [State.effect, setRun_loaded, hloaded]
  rw [if_pos trivial]
  exact List.mem_singleton_self _

omit [DecidableEq ι] in
/-- The module was loaded before a command, or the command inserted it. -/
theorem inserted_of_loadedAfter {i owner : ι} {c : Command} {r : c.Res}
    (h : s.loadedAfter file i c r = some owner) :
    s.loaded = some owner ∨ .inserted owner file ∈ s.effect file i c r := by
  cases c with
  | insmod arg =>
    by_cases hr : (r && arg = some file) = true
    · obtain ⟨hinserted, harg⟩ := Bool.and_eq_true_iff.mp hr
      have hi : s.loadedAfter file i (.insmod arg) r = some i := if_pos hr
      obtain rfl := of_decide_eq_true harg
      rw [hi] at h
      obtain rfl := Option.some.inj h
      refine Or.inr ?_
      have heffect : s.effect file i (.insmod (some file)) r = [.inserted i file] :=
        if_pos hinserted
      rw [heffect]
      exact List.mem_singleton_self _
    · have hsame : s.loadedAfter file i (.insmod arg) r = s.loaded := if_neg hr
      exact Or.inl (hsame ▸ h)
  | rmmod arg =>
    by_cases harg : arg = some file
    · have hnone : s.loadedAfter file i (.rmmod arg) r = none := if_pos harg
      rw [hnone] at h
      cases h
    · have hsame : s.loadedAfter file i (.rmmod arg) r = s.loaded := if_neg harg
      exact Or.inl (hsame ▸ h)
  | idU | trapInt | trapExit | modIoctl | dmesg | read => exact Or.inl h

/-- The module has been inserted by the run that it belongs to. -/
theorem inserted_of_loaded {evs : List (Event ι)}
    (h : (system file).Run System.Any (initial enhanced args) evs s) (owner : ι)
    (hloaded : s.loaded = some owner) : .inserted owner file ∈ evs := by
  refine h.invariant (I := fun evs s => ∀ owner, s.loaded = some owner →
    .inserted owner file ∈ evs) nofun ?_ owner hloaded
  intro evs s a es s' ih _ hs owner hloaded
  refine List.mem_append.mpr ?_
  cases stepped_of_step hs with
  | interrupted i hi => exact Or.inl (ih owner hloaded)
  | left i answer hi => exact Or.inl (ih owner hloaded)
  | performed i answer hi r hr =>
    exact (inserted_of_loadedAfter hloaded).imp (ih owner) fun h => List.mem_cons_of_mem _ h

/-- **Any other step** lets the next Ctrl-C remove the instance of somebody else. -/
theorem foreign_of_not_apart {evs es : List (Event ι)}
    (h : (system file).Run System.Any (initial enhanced args) evs s) {a : Action ι}
    (hs : (system file).step s a = some (es, s')) (hG : ¬ Apart file s a) :
    ∃ fs t, (system file).Run System.Any s' fs t ∧ ¬ RemovesOwn fs := by
  cases stepped_of_step hs with
  | interrupted i hi => exact absurd trivial hG
  | left i answer hi =>
    have hcommand : (s.run i).command = none := by rw [Process.command, hi]
    refine absurd ⟨fun h => ?_, fun h => ?_⟩ hG
    · rw [hcommand] at h
      cases h
    · rw [hcommand] at h
      cases h
  | @performed i answer b c k hi r hr =>
    have hcommand : (s.run i).command = some c := by rw [Process.command, hi]
    obtain ⟨φ, hφ⟩ := history_of_run h i
    rcases Classical.not_and_iff_not_or_not.mp hG with htrap | hinsmod
    · -- the module is loaded when the handlers for it are set
      obtain ⟨hc, hloaded⟩ := Classical.not_imp.mp htrap
      rw [hcommand] at hc
      obtain rfl := Option.some.inj hc
      obtain ⟨owner, howner⟩ := Option.ne_none_iff_exists'.mp hloaded
      cases b with
      | true => cases (hφ.sound.handler_next hi r).2.2.1
      | false =>
        obtain ⟨t, t', rfl, -, hmoves, -⟩ := hφ.sound.script_next hi r
        have hstart := hmoves.trapInt_stage rfl
        have hne : i ≠ owner := by
          rintro rfl
          rcases hφ.later file (inserted_of_loaded h i howner) t rfl with ht | ht
          · rw [hstart] at ht
            cases ht
          · rw [hstart] at ht
            cases ht
        refine foreign_of_armed ⟨?_, ?_⟩ howner hne
        · rw [execute_run_self]
          rfl
        · rw [execute_run_self]
          rfl
    · -- the module is inserted while another run has handlers for it
      obtain ⟨hc, hothers⟩ := Classical.not_imp.mp hinsmod
      obtain ⟨hinserts, hothers⟩ := Classical.not_imp.mp hothers
      rw [hcommand] at hc
      obtain rfl := Option.some.inj hc
      obtain ⟨j, hj⟩ := Classical.not_forall.mp hothers
      obtain ⟨hji, harmed⟩ := Classical.not_imp.mp hj
      have hr' : r = true := hr.trans hinserts
      have hloaded : s.loadedAfter file i (.insmod (some file)) r = some i :=
        if_pos (by rw [hr']; simp)
      refine foreign_of_armed ?_ hloaded hji
      rw [State.Armed, execute_run_of_ne file s hji]
      exact Classical.not_not.mp harmed

/-- The start of a run, up to `insmod`. -/
def startUp (i : Fin 2) : List (Action (Fin 2)) :=
  [.proceed i asRoot, .proceed i asRoot, .proceed i asRoot, .proceed i asRoot]

/-- A run after the other, with Ctrl-C. -/
theorem removesOwn_of_serial : ∃ evs s, (system ecrKo.chars).Run (Apart ecrKo.chars)
    (initial true fun _ : Fin 2 => [ecrKo]) evs s ∧
      (.removed 0 0 ∈ evs ∧ .removed 1 1 ∈ evs) ∧ RemovesOwn evs := by
  obtain ⟨evs, s, hrun, hevs⟩ := System.Run.exists_of_exec (system ecrKo.chars)
    (Apart ecrKo.chars) (initial true fun _ : Fin 2 => [ecrKo])
    (startUp 0 ++ [.interrupt 0, .proceed 0 asRoot, .proceed 0 asRoot, .proceed 0 asRoot,
      .proceed 0 asRoot] ++ startUp 1 ++ [.interrupt 1, .proceed 1 asRoot])
    (fun evs _ => .removed 0 0 ∈ evs ∧ .removed 1 1 ∈ evs) (by decide +kernel)
  exact ⟨evs, s, hrun, hevs, removesOwn_of_apart true _ _ hrun⟩

/-- **A run whose `insmod` failed** removes the instance of the other run. -/
theorem removesOwn_fails : ¬ ∀ (evs : List (Event (Fin 2))) s,
    (system ecrKo.chars).Run System.Any (initial true fun _ => [ecrKo]) evs s →
      RemovesOwn evs := by
  intro hall
  obtain ⟨evs, s, hrun, hevs⟩ := System.Run.exists_of_exec (system ecrKo.chars)
    System.Any (initial true fun _ : Fin 2 => [ecrKo])
    (startUp 0 ++ startUp 1 ++ [.proceed 1 asRoot, .proceed 1 asRoot])
    (fun evs _ => .removed 1 0 ∈ evs) (by decide +kernel)
  exact absurd (hall evs s hrun 1 0 hevs) (by decide)

end

end EcrToolkit.EcrSh
