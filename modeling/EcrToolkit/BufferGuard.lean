import EcrToolkit.BufferRace

/-!
# The INSTR threads and the buffer

The loops of `instr_f` and `buffer_flush_instr_f` that access memory stand behind
the test of `vmem_aligned`.  As long as `vmem_aligned` does not become NULL again,
a thread that passed the test finds it set at every access (`Guarded`).
-/
namespace EcrToolkit.NopTimer

variable {ι : Type} [DecidableEq ι]

/-- What a statement of `nop_timing_start` does to the INSTR threads and to the calls. -/
structure CallFrame (i : ι) (s s' : State ι) : Prop where
  instr : ∀ j, (s'.instr j).pc = (s.instr j).pc ∨ (s'.instr j).pc = .created
  call : ∀ j, j ≠ i → s'.call j = s.call j
  called : (s.call i).pc ≠ .notCalled ∧ (s.call i).pc ≠ .returned ∧ (s.call i).pc ≠ .faulted

theorem nopTimingStart_frame {s s' : State ι} {i : ι} {err : Option Nat} {es : List (Event ι)}
    (h : nopTimingStart s i err = some (es, s')) : CallFrame i s s' := by
  have hupd : ∀ (t : InstrThread) (j k : ι), t.pc = (s.instr j).pc ∨ t.pc = .created →
      (Function.update s.instr j t k).pc = (s.instr k).pc ∨
        (Function.update s.instr j t k).pc = .created := by
    intro t j k ht
    by_cases hk : k = j
    · subst hk
      rw [Function.update_self]
      exact ht
    · rw [Function.update_of_ne hk]
      exact Or.inl rfl
  have hcall : ∀ (c : Call ι) (j : ι), j ≠ i → Function.update s.call i c j = s.call j :=
    fun c j hj => Function.update_of_ne hj ..
  unfold nopTimingStart at h
  cases hpc : (s.call i).pc <;> simp only [hpc] at h
  case notCalled | returned | faulted => cases h
  case clearReset | clearPrint | clearFinish | testNop | testInstr | poll | sleep =>
    cases h
    exact ⟨fun k => Or.inl rfl, hcall _, by simp [hpc]⟩
  case createInstr =>
    split at h <;> cases h
    · exact ⟨fun k => hupd _ _ k (Or.inr rfl), hcall _, by simp [hpc]⟩
    · exact ⟨fun k => Or.inl rfl, hcall _, by simp [hpc]⟩
  case wakeInstr | stopInstr =>
    split at h <;> cases h
    · exact ⟨fun k => hupd _ _ k (Or.inl rfl), hcall _, by simp [hpc]⟩
    · exact ⟨fun k => Or.inl rfl, hcall _, by simp [hpc]⟩
  all_goals
    split at h <;> cases h
    all_goals exact ⟨fun k => Or.inl rfl, hcall _, by simp [hpc]⟩

end EcrToolkit.NopTimer

namespace EcrToolkit.Device

open NopTimer (InstrPc InstrThread nextLoop afterBody nopTimingLoop instrF nopLoops)

variable {ι κ : Type}

/-- The access through `vmem_aligned` an event stands for. -/
def Event.touched : Event ι κ → Option (Access × BitVec 64)
  | .op _ (.access .vmemAligned a p) => some (a, p)
  | .instrAccess _ a p => some (a, p)
  | _ => none

/-- Inside the table of loops. -/
def inTable : InstrPc → Bool
  | .atLoop _ _ _ => true
  | _ => false

/-- The loops still to run are guarded, and past the guard of the current one
`vmem_aligned`, which is `v`, is not NULL. -/
inductive Guarded (v : BitVec 64) : InstrPc → Prop
  | atLoop (l : TimingLoop) (p : NopTimer.LoopPc) (rest : List TimingLoop)
      (hl : ∀ x ∈ l :: rest, LoopGuarded x)
      (hp : instrAccess l.functionCall = none ∨ p = .testVmemAligned ∨ p = .zero ∨ v ≠ 0) :
    Guarded v (.atLoop l p rest)
  | outside (pc : InstrPc) (h : inTable pc = false) : Guarded v pc

theorem Guarded.mono {v v' : BitVec 64} {pc : InstrPc} (h : Guarded v pc)
    (hv : v ≠ 0 → v' ≠ 0) : Guarded v' pc := by
  rcases h with ⟨l, p, rest, hl, hp⟩ | ⟨_, h⟩
  · exact .atLoop l p rest hl (hp.imp_right fun h => h.imp_right fun h => h.imp_right hv)
  · exact .outside _ h

theorem nopLoops_guarded (action : Bool) : ∀ l ∈ nopLoops action, LoopGuarded l := by
  cases action
  · exact flushLoops_guarded
  · exact standardLoops_guarded

theorem guarded_nextLoop (v : BitVec 64) {ls : List TimingLoop} (h : ∀ l ∈ ls, LoopGuarded l) :
    Guarded v (nextLoop ls) := by
  cases ls with
  | nil => exact .outside _ rfl
  | cons l rest =>
    refine .atLoop l _ rest h ?_
    rcases h l (List.mem_cons_self ..) with hf | hg
    · exact Or.inl hf
    · unfold NopTimer.entry
      rw [hg]
      exact Or.inr (Or.inl rfl)

theorem guarded_afterBody (v : BitVec 64) {l : TimingLoop} {rest : List TimingLoop}
    (h : ∀ x ∈ l :: rest, LoopGuarded x) : Guarded v (afterBody l rest) := by
  unfold afterBody
  split
  case isTrue hg =>
    refine .atLoop l _ rest h (Or.inl ?_)
    refine (h l (List.mem_cons_self ..)).resolve_right fun hk => ?_
    rw [hg] at hk
    cases hk
  case isFalse => exact guarded_nextLoop v fun x hx => h x (List.mem_cons_of_mem l hx)

/-- One statement of a timing macro stays behind its guard. -/
theorem nopTimingLoop_guarded {i : κ} {g : NopTimer.Globals κ} {env : NopTimer.Env}
    {t : InstrThread} {l : TimingLoop} {p : NopTimer.LoopPc} {rest : List TimingLoop}
    (h : Guarded env.vmemAligned (.atLoop l p rest)) :
    Guarded env.vmemAligned (nopTimingLoop i g env t l p rest).2.2.pc := by
  rcases h with ⟨_, _, _, hl, hp⟩ | ⟨_, h⟩
  case outside => cases h
  have hrest : ∀ x ∈ rest, LoopGuarded x := fun x hx => hl x (List.mem_cons_of_mem l hx)
  have hstay : ∀ p', p ≠ .testVmemAligned → p ≠ .zero →
      Guarded env.vmemAligned (.atLoop l p' rest) := by
    intro p' h1 h2
    refine .atLoop l p' rest hl (hp.imp_right fun h => ?_)
    exact Or.inr (Or.inr ((h.resolve_left h1).resolve_left h2))
  have hafter := guarded_afterBody env.vmemAligned hl
  have hnext := guarded_nextLoop env.vmemAligned hrest
  cases p with
  | testVmemAligned =>
    refine .atLoop l _ rest hl (Or.inr ?_)
    by_cases hv : env.vmemAligned = 0
    · exact Or.inr (Or.inl (by rw [if_neg (not_not.mpr hv)]))
    · exact Or.inr (Or.inr hv)
  | zero => exact hafter
  | irqEnable => exact hnext
  | bootCpuHas f =>
    show Guarded _ (InstrThread.pc (if _ then _ else _))
    split
    · exact hstay _ nofun nofun
    · exact hnext
  | forCall left => cases left <;> exact hstay _ nofun nofun
  | spinReset =>
    show Guarded _ (InstrThread.pc (Prod.snd (Prod.snd (if _ then _ else _))))
    split <;> exact hstay _ nofun nofun
  | spinResetStop =>
    show Guarded _ (InstrThread.pc (Prod.snd (Prod.snd (if _ then _ else _))))
    split <;> exact hstay _ nofun nofun
  | spinPrint =>
    show Guarded _ (InstrThread.pc (Prod.snd (Prod.snd (if _ then _ else _))))
    split
    · exact hstay _ nofun nofun
    · exact hafter
  | spinPrintStop =>
    show Guarded _ (InstrThread.pc (Prod.snd (Prod.snd (if _ then _ else _))))
    split
    · exact hafter
    · exact hstay _ nofun nofun
  | irqSave | irqDisable | testOnline | setReset | label | setPrint | irqRestore =>
    exact hstay _ nofun nofun

theorem instrF_guarded {i : κ} {g : NopTimer.Globals κ} {env : NopTimer.Env} {t : InstrThread}
    {r : List (NopTimer.Event κ) × NopTimer.Globals κ × InstrThread}
    (h : Guarded env.vmemAligned t.pc) (hr : instrF i g env t = some r) :
    Guarded env.vmemAligned r.2.2.pc := by
  unfold instrF at hr
  split at hr
  case isFalse => cases hr
  case isTrue =>
    split at hr
    case h_1 | h_8 => cases hr
    case h_2 =>
      cases hr
      show Guarded _ (if _ then _ else _)
      split <;> exact .outside _ rfl
    case h_3 | h_6 | h_7 => cases hr; exact .outside _ rfl
    case h_4 => cases hr; exact guarded_nextLoop _ (nopLoops_guarded t.action)
    case h_5 l p rest hpc =>
      rw [hpc] at h
      cases hr
      exact nopTimingLoop_guarded h

/-- An INSTR thread about to access memory is past its guard. -/
theorem Guarded.ne_zero {v : BitVec 64} {t : InstrThread} {a : Access} (h : Guarded v t.pc)
    (ha : nextAccess t = some a) : v ≠ 0 := by
  unfold nextAccess at ha
  split at ha
  case h_2 => cases ha
  case h_1 l left rest hpc =>
    rw [hpc] at h
    rcases h with ⟨_, _, _, -, hp⟩ | ⟨_, h⟩
    · rw [ha] at hp
      rcases hp with hp | hp | hp | hv
      · cases hp
      · cases hp
      · cases hp
      · exact hv
    · cases h

/-- Every INSTR thread is behind its guard. -/
def AllGuarded (s : State ι κ) : Prop :=
  ∀ j, Guarded s.memory.vmemAligned (s.nop.instr j).pc

/-- What a step inside the NOP timer does to guarded threads. -/
structure GuardedStep (s : State ι κ) (es : List (Event ι κ)) (s' : State ι κ) : Prop where
  guarded : AllGuarded s'
  touches : ∀ e ∈ es, ∀ x, e.touched = some x →
    x.2 = s.memory.vmemAligned ∧ s.memory.vmemAligned ≠ 0 ∧ ∃ f, instrAccess f = some x.1

variable [DecidableEq κ]

theorem nopStep_guarded {s s' : State ι κ} {mapped : Bool} {a : NopTimer.Action κ}
    {es : List (Event ι κ)} (h : AllGuarded s) (hs : nopStep s mapped a = some (es, s')) :
    GuardedStep s es s' := by
  have hsilent : ∀ evs : List (NopTimer.Event κ), ∀ e ∈ evs.map (Event.nop (ι := ι)), ∀ x,
      e.touched = some x →
      x.2 = s.memory.vmemAligned ∧ s.memory.vmemAligned ≠ 0 ∧ ∃ f, instrAccess f = some x.1 := by
    refine fun evs => List.forall_mem_map.mpr fun e _ x hx => ?_
    cases hx
  cases a with
  | begin j action => cases hs
  | instr j env =>
    simp only [nopStep, instrStep] at hs
    obtain ⟨r, hr, he⟩ := Option.map_eq_some_iff.mp hs
    obtain ⟨q, hq, rfl⟩ := Option.map_eq_some_iff.mp hr
    have hpc : ∀ t : InstrThread, Guarded s.memory.vmemAligned t.pc → ∀ k,
        Guarded s.memory.vmemAligned (Function.update s.nop.instr j t k).pc := by
      intro t ht k
      by_cases hk : k = j
      · subst hk
        rw [Function.update_self]
        exact ht
      · rw [Function.update_of_ne hk]
        exact h k
    have hnew := instrF_guarded (h j) hq
    split at he
    case h_1 =>
      cases he
      exact ⟨hpc _ hnew, hsilent _⟩
    case h_2 acc hacc =>
      have hv := (h j).ne_zero hacc
      have hf : ∃ f, instrAccess f = some acc := by
        unfold nextAccess at hacc
        split at hacc
        · exact ⟨_, hacc⟩
        · cases hacc
      split at he
      all_goals
        cases he
      · refine ⟨hpc _ hnew, fun e he x hx => ?_⟩
        rcases List.mem_cons.mp he with rfl | he
        · cases hx
          exact ⟨rfl, hv, hf⟩
        · exact hsilent _ e he x hx
      · refine ⟨hpc _ (.outside _ rfl), fun e he x hx => ?_⟩
        rcases List.mem_cons.mp he with rfl | he
        · cases hx
          exact ⟨rfl, hv, hf⟩
        · obtain rfl := List.mem_singleton.mp he
          cases hx
  | call j err =>
    simp only [nopStep] at hs
    obtain ⟨r, hr, he⟩ := Option.map_eq_some_iff.mp hs
    cases he
    refine ⟨fun k => ?_, hsilent _⟩
    show Guarded s.memory.vmemAligned (r.2.instr k).pc
    rcases (NopTimer.nopTimingStart_frame hr).instr k with hk | hk
    · rw [hk]
      exact h k
    · rw [hk]
      exact .outside _ rfl
  | nop j =>
    simp only [nopStep] at hs
    obtain ⟨r, hr, he⟩ := Option.map_eq_some_iff.mp hs
    obtain ⟨q, -, rfl⟩ := Option.map_eq_some_iff.mp hr
    cases he
    exact ⟨h, hsilent _⟩
  | sigkill j =>
    cases hs
    exact ⟨h, hsilent []⟩

end EcrToolkit.Device
