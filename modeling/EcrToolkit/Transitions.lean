import Mathlib.Data.List.Induction

/-!
# Transition systems, their runs, and monitors

A `System` is a machine that an outside scheduler drives: `step s a` is what
happens when the scheduler picks action `a` in state `s`, `none` when `a` is not
enabled there.  Everything that is left open — which thread moves, what the
environment answers — is part of the action, so the step is a function and a run
can be evaluated.

A `Run` carries a step condition `G`: every action taken is one that `G` allows
in the state it is taken in.  `G := fun _ _ => True` gives every run.  Invariants
are proved once per step and hold of every run (`Run.invariant`).

A `recording` adds to the events of a system what an observer sees of its steps.

A `Monitor` is an abstract machine that reads the events of a run one by one and
may refuse one.  `Run.accepted` is the simulation rule: if each step of the
system can be followed by the monitor, the monitor accepts every run.
-/
namespace Transitions

/-- A machine driven by actions `α`, emitting events `ε`. -/
structure System (σ α ε : Type) where
  /-- One step: the events it emits and the state after it. -/
  step : σ → α → Option (List ε × σ)

namespace System
variable {σ α ε : Type} (S : System σ α ε)

/-- The finite runs from `s₀` whose every step meets `G`, with the events they
emit, oldest first. -/
inductive Run (G : σ → α → Prop) (s₀ : σ) : List ε → σ → Prop
  | start : Run G s₀ [] s₀
  | step {evs s a es s'} : Run G s₀ evs s → G s a → S.step s a = some (es, s') →
      Run G s₀ (evs ++ es) s'

/-- The schedule that allows every action. -/
def Any : σ → α → Prop := fun _ _ => True

instance (s : σ) (a : α) : Decidable (Any s a) := inferInstanceAs (Decidable True)

variable {S} {G : σ → α → Prop} {s₀ : σ}

/-- **Induction over runs.**  What holds at the start and is kept by every
allowed step holds after every run. -/
theorem Run.invariant {I : List ε → σ → Prop} (h0 : I [] s₀)
    (hstep : ∀ evs s a es s', I evs s → G s a → S.step s a = some (es, s') → I (evs ++ es) s')
    {evs : List ε} {s : σ} (h : S.Run G s₀ evs s) : I evs s := by
  induction h with
  | start => exact h0
  | step _ hg hs ih => exact hstep _ _ _ _ _ ih hg hs

/-- `Run.invariant` for a property of the state alone. -/
theorem Run.stateInvariant {I : σ → Prop} (h0 : I s₀)
    (hstep : ∀ s a es s', I s → G s a → S.step s a = some (es, s') → I s')
    {evs : List ε} {s : σ} (h : S.Run G s₀ evs s) : I s :=
  Run.invariant (I := fun _ s => I s) h0 (fun _ s a es s' => hstep s a es s') h

/-- Runs compose. -/
theorem Run.trans {evs evs' : List ε} {s t : σ} (h : S.Run G s₀ evs s)
    (h' : S.Run G s evs' t) : S.Run G s₀ (evs ++ evs') t := by
  induction h' with
  | start => rwa [List.append_nil]
  | step _ hg hs ih =>
    rw [← List.append_assoc]
    exact .step ih hg hs

/-! ## Executing a schedule -/

section Exec
variable (S) (G) [∀ s a, Decidable (G s a)]

/-- Take the listed actions one after another, as long as `G` allows them. -/
def exec : σ → List α → Option (List ε × σ)
  | s, [] => some ([], s)
  | s, a :: as =>
    if G s a then
      (S.step s a).bind fun r => (exec r.2 as).map fun q => (r.1 ++ q.1, q.2)
    else none

variable {S} {G}

/-- A schedule that executes is a run. -/
theorem Run.of_exec {s t : σ} {as : List α} {evs : List ε}
    (h : S.exec G s as = some (evs, t)) : S.Run G s evs t := by
  induction as generalizing s evs with
  | nil =>
    obtain ⟨rfl, rfl⟩ := Prod.mk.inj (Option.some.inj h)
    exact .start
  | cons a as ih =>
    unfold exec at h
    split at h
    case isFalse => cases h
    case isTrue hg =>
      obtain ⟨r, hr, hrest⟩ := Option.bind_eq_some_iff.mp h
      obtain ⟨q, hq, he⟩ := Option.map_eq_some_iff.mp hrest
      obtain ⟨rfl, rfl⟩ := Prod.mk.inj he
      have hone : S.Run G s ([] ++ r.1) r.2 := .step .start hg hr
      exact hone.trans (ih hq)

variable (S) (G) in
/-- A schedule that executes and ends as `P` says gives a run that does. -/
theorem Run.exists_of_exec (s : σ) (as : List α) (P : List ε → σ → Prop)
    [∀ evs t, Decidable (P evs t)]
    (h : ((S.exec G s as).any fun r => decide (P r.1 r.2)) = true) :
    ∃ evs t, S.Run G s evs t ∧ P evs t := by
  cases he : S.exec G s as with
  | none => rw [he] at h; cases h
  | some r =>
    rw [he] at h
    exact ⟨r.1, r.2, .of_exec he, of_decide_eq_true h⟩

end Exec

/-! ## Recordings -/

section Recording
variable {δ : Type} {look : σ → α → List δ}

/-- `S` with what `look` sees of each step recorded after its events.  No step depends on the
record. -/
def recording (S : System σ α ε) (look : σ → α → List δ) : System σ α (ε ⊕ δ) where
  step s a := (S.step s a).map fun r => (r.1.map .inl ++ (look s a).map .inr, r.2)

theorem recording_step {s s' : σ} {a : α} {es : List (ε ⊕ δ)}
    (h : (S.recording look).step s a = some (es, s')) :
    ∃ es₀, S.step s a = some (es₀, s') ∧ es = es₀.map .inl ++ (look s a).map .inr := by
  obtain ⟨⟨es₀, t⟩, hs, he⟩ := Option.map_eq_some_iff.mp h
  obtain ⟨rfl, rfl⟩ := Prod.mk.inj he
  exact ⟨es₀, hs, rfl⟩

/-- The events of a step, and what is recorded of it. -/
theorem left_recorded (es : List ε) (ds : List δ) :
    (es.map .inl ++ ds.map .inr : List (ε ⊕ δ)).filterMap Sum.getLeft? = es := by
  rw [List.filterMap_append, List.filterMap_map, List.filterMap_map]
  have hseen : ds.filterMap (Sum.getLeft? ∘ (Sum.inr : δ → ε ⊕ δ)) = [] :=
    List.filterMap_eq_nil_iff.mpr fun _ _ => rfl
  have hown : es.filterMap (Sum.getLeft? ∘ (Sum.inl : ε → ε ⊕ δ)) = es := List.filterMap_some
  rw [hseen, hown, List.append_nil]

theorem right_recorded (es : List ε) (ds : List δ) :
    (es.map .inl ++ ds.map .inr : List (ε ⊕ δ)).filterMap Sum.getRight? = ds := by
  rw [List.filterMap_append, List.filterMap_map, List.filterMap_map]
  have hown : es.filterMap (Sum.getRight? ∘ (Sum.inl : ε → ε ⊕ δ)) = [] :=
    List.filterMap_eq_nil_iff.mpr fun _ _ => rfl
  have hseen : ds.filterMap (Sum.getRight? ∘ (Sum.inr : δ → ε ⊕ δ)) = ds := List.filterMap_some
  rw [hseen, hown, List.nil_append]

theorem mem_left {evs : List (ε ⊕ δ)} {e : ε} :
    e ∈ evs.filterMap Sum.getLeft? ↔ .inl e ∈ evs := by
  rw [List.mem_filterMap]
  constructor
  · rintro ⟨x, hx, hxe⟩
    rwa [Sum.getLeft?_eq_some_iff.mp hxe] at hx
  · exact fun h => ⟨_, h, rfl⟩

/-- A run can be recorded. -/
theorem Run.exists_recording {evs : List ε} {s : σ} (h : S.Run G s₀ evs s)
    (look : σ → α → List δ) :
    ∃ recorded, (S.recording look).Run G s₀ recorded s ∧
      recorded.filterMap Sum.getLeft? = evs := by
  induction h with
  | start => exact ⟨[], .start, rfl⟩
  | @step evs s a es s' _ hg hs ih =>
    obtain ⟨recorded, hrun, hevs⟩ := ih
    have hstep : (S.recording look).step s a =
        some (es.map .inl ++ (look s a).map .inr, s') := by
      show (S.step s a).map _ = _
      rw [hs, Option.map_some]
    refine ⟨_, .step hrun hg hstep, ?_⟩
    rw [List.filterMap_append, hevs, left_recorded]

end Recording

end System

/-! ## Monitors -/

/-- An abstract machine that reads events and may refuse one. -/
structure Monitor (μ ε : Type) where
  /-- The state before any event. -/
  init : μ
  /-- Read one event; `none` refuses it. -/
  next : μ → ε → Option μ

namespace Monitor
variable {μ ε : Type} (M : Monitor μ ε)

/-- Read a list of events from `m`. -/
def readFrom : μ → List ε → Option μ
  | m, [] => some m
  | m, e :: es => (M.next m e).bind fun m' => readFrom m' es

/-- `M` reads `evs` from its initial state and ends in `m`. -/
def Accepts (evs : List ε) (m : μ) : Prop := M.readFrom M.init evs = some m

theorem readFrom_cons (m : μ) (e : ε) (es : List ε) :
    M.readFrom m (e :: es) = (M.next m e).bind fun m' => M.readFrom m' es := rfl

theorem readFrom_cons_of_next {m m' : μ} {e : ε} (h : M.next m e = some m') (es : List ε) :
    M.readFrom m (e :: es) = M.readFrom m' es := by
  rw [readFrom_cons, h]
  rfl

theorem readFrom_append (m : μ) (es fs : List ε) :
    M.readFrom m (es ++ fs) = (M.readFrom m es).bind fun m' => M.readFrom m' fs := by
  induction es generalizing m with
  | nil => rfl
  | cons e es ih =>
    rw [List.cons_append, readFrom_cons, readFrom_cons]
    cases M.next m e with
    | none => rfl
    | some m' => exact ih m'

theorem readFrom_singleton (m : μ) (e : ε) : M.readFrom m [e] = M.next m e := by
  rw [readFrom_cons]
  cases M.next m e <;> rfl

theorem Accepts.append {M : Monitor μ ε} {evs es : List ε} {m m' : μ} (h : M.Accepts evs m)
    (h' : M.readFrom m es = some m') : M.Accepts (evs ++ es) m' := by
  rw [Accepts, readFrom_append, h]
  exact h'

/-- A list that is accepted has all its beginnings accepted. -/
theorem exists_readFrom_of_prefix {m m' : μ} {es fs : List ε} (hle : es <+: fs)
    (h : M.readFrom m fs = some m') : ∃ m₁, M.readFrom m es = some m₁ := by
  obtain ⟨rest, rfl⟩ := hle
  rw [readFrom_append] at h
  obtain ⟨m₁, h1, -⟩ := Option.bind_eq_some_iff.mp h
  exact ⟨m₁, h1⟩

/-- **Induction over accepted event lists**, one event at a time. -/
theorem Accepts.induction {M : Monitor μ ε} {P : List ε → μ → Prop} (h0 : P [] M.init)
    (hnext : ∀ evs m e m', P evs m → M.next m e = some m' → P (evs ++ [e]) m')
    {evs : List ε} {m : μ} (h : M.Accepts evs m) : P evs m := by
  induction evs using List.reverseRecOn generalizing m with
  | nil =>
    obtain rfl := Option.some.inj h
    exact h0
  | append_singleton evs e ih =>
    rw [Accepts, readFrom_append] at h
    obtain ⟨m₁, h1, h2⟩ := Option.bind_eq_some_iff.mp h
    rw [readFrom_singleton] at h2
    exact hnext evs m₁ e m (ih h1) h2

end Monitor

/-- **Simulation.**  If the monitor can follow, from related states, what it sees
of every allowed step of the system, it accepts what it sees of every run. -/
theorem System.Run.accepted {σ α ε μ : Type} {S : System σ α ε} {G : σ → α → Prop} {s₀ : σ}
    {M : Monitor μ ε} {R : σ → μ → Prop} (visible : ε → Bool) (h0 : R s₀ M.init)
    (hstep : ∀ s m a es s', R s m → G s a → S.step s a = some (es, s') →
      ∃ m', M.readFrom m (es.filter visible) = some m' ∧ R s' m')
    {evs : List ε} {s : σ} (h : S.Run G s₀ evs s) :
    ∃ m, M.Accepts (evs.filter visible) m ∧ R s m := by
  refine Run.invariant (I := fun evs s => ∃ m, M.Accepts (evs.filter visible) m ∧ R s m)
    ⟨_, rfl, h0⟩ ?_ h
  rintro evs s a es s' ⟨m, hacc, hR⟩ hg hs
  obtain ⟨m', hread, hR'⟩ := hstep s m a es s' hR hg hs
  rw [List.filter_append]
  exact ⟨m', hacc.append hread, hR'⟩

end Transitions
