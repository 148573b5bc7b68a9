/-!
# Programs over atomic operations

A program either returns or performs one operation and goes on with the answer.
What an operation does, and what it answers, is not part of the program: the
machine that runs it decides, and other programs may run between any two
operations.

`Safe ok φ` says that whatever answers `ok` allows, every operation the program
performs satisfies `φ`; a step keeps it (`Safe.step`).  `Performs ok ψ` says that
the program cannot return before it has performed an operation that satisfies `ψ`.
`Follows δ` says that an automaton refuses none of the operations, in their order.
`Runs` lists the operations of one run from beginning to end, `Traces` their answers as
well, and `Shows obs P` says that what an observer sees of any run satisfies `P`.
-/
namespace AtomicProgram

/-- Programs over the operations `Op`, of which `o` is answered with a `Res o`. -/
inductive Prog (Op : Type) (Res : Op → Type) (α : Type)
  | ret (a : α)
  | op (o : Op) (k : Res o → Prog Op Res α)

namespace Prog
variable {Op : Type} {Res : Op → Type} {α β : Type}

/-- Run one program after the other. -/
def bind : Prog Op Res α → (α → Prog Op Res β) → Prog Op Res β
  | ret a, q => q a
  | op o k, q => op o fun r => (k r).bind q

instance : Monad (Prog Op Res) where
  pure := ret
  bind := bind

/-- `for ( j = i; j < i + n; j++ )`, carrying a value around the loop. -/
def forFrom (i : Nat) : (n : Nat) → α → (Nat → α → Prog Op Res α) → Prog Op Res α
  | 0, a, _ => ret a
  | n + 1, a, body => (body i a).bind fun a' => forFrom (i + 1) n a' body

/-- `for ( j = 0; j < n; j++ )`. -/
def forLoop (n : Nat) (a : α) (body : Nat → α → Prog Op Res α) : Prog Op Res α :=
  forFrom 0 n a body

/-- `for b in "${bs[@]}"`. -/
def forEach {γ : Type} : List γ → (γ → Prog Op Res Unit) → Prog Op Res Unit
  | [], _ => ret ()
  | b :: bs, body => (body b).bind fun _ => forEach bs body

/-! ## What a program may do -/

/-- Every operation satisfies `φ`, as long as every answer is one `ok` allows. -/
def Safe (ok : (o : Op) → Res o → Prop) (φ : Op → Prop) : Prog Op Res α → Prop
  | ret _ => True
  | op o k => φ o ∧ ∀ r, ok o r → Safe ok φ (k r)

variable {ok ok' : (o : Op) → Res o → Prop} {φ φ' : Op → Prop}

theorem safe_ret (a : α) : Safe ok φ (ret a : Prog Op Res α) := trivial

theorem safe_op {o : Op} {k : Res o → Prog Op Res α} (ho : φ o)
    (hk : ∀ r, ok o r → Safe ok φ (k r)) : Safe ok φ (op o k) := ⟨ho, hk⟩

/-- **A step of a safe program is allowed, and leaves a safe program.** -/
theorem Safe.step {o : Op} {k : Res o → Prog Op Res α} (h : Safe ok φ (op o k)) {r : Res o}
    (hr : ok o r) : φ o ∧ Safe ok φ (k r) := ⟨h.1, h.2 r hr⟩

theorem Safe.bind {p : Prog Op Res α} {q : α → Prog Op Res β} (hp : Safe ok φ p)
    (hq : ∀ a, Safe ok φ (q a)) : Safe ok φ (p.bind q) := by
  induction p with
  | ret a => exact hq a
  | op o k ih => exact ⟨hp.1, fun r hr => ih r (hp.2 r hr)⟩

theorem Safe.mono {p : Prog Op Res α} (hp : Safe ok φ p) (hok : ∀ o r, ok' o r → ok o r)
    (hφ : ∀ o, φ o → φ' o) : Safe ok' φ' p := by
  induction p with
  | ret a => trivial
  | op o k ih => exact ⟨hφ o hp.1, fun r hr => ih r (hp.2 r (hok o r hr))⟩

theorem safe_forFrom {body : Nat → α → Prog Op Res α} (hb : ∀ i a, Safe ok φ (body i a))
    (i n : Nat) (a : α) : Safe ok φ (forFrom i n a body) := by
  induction n generalizing i a with
  | zero => trivial
  | succ n ih => exact (hb i a).bind fun a' => ih (i + 1) a'

theorem safe_forEach {γ : Type} {body : γ → Prog Op Res Unit} (hb : ∀ b, Safe ok φ (body b))
    (bs : List γ) : Safe ok φ (forEach bs body) := by
  induction bs with
  | nil => trivial
  | cons b bs ih => exact (hb b).bind fun _ => ih

/-! ## What a program must do -/

/-- The program does not return before it has performed an operation with `ψ`. -/
def Performs (ok : (o : Op) → Res o → Prop) (ψ : Op → Prop) : Prog Op Res α → Prop
  | ret _ => False
  | op o k => ψ o ∨ ∀ r, ok o r → Performs ok ψ (k r)

variable {ψ : Op → Prop}

theorem Performs.step {o : Op} {k : Res o → Prog Op Res α} (h : Performs ok ψ (op o k))
    {r : Res o} (hr : ok o r) : ψ o ∨ Performs ok ψ (k r) := h.imp_right fun h => h r hr

theorem performs_bind_left {p : Prog Op Res α} {q : α → Prog Op Res β} (hp : Performs ok ψ p) :
    Performs ok ψ (p.bind q) := by
  induction p with
  | ret a => exact hp.elim
  | op o k ih => exact hp.imp_right fun hk r hr => ih r (hk r hr)

theorem performs_bind_right {p : Prog Op Res α} {q : α → Prog Op Res β}
    (hq : ∀ a, Performs ok ψ (q a)) : Performs ok ψ (p.bind q) := by
  induction p with
  | ret a => exact hq a
  | op o k ih => exact Or.inr fun r _ => ih r

/-! ## In which order -/

section
variable {τ : Type} {δ : τ → (o : Op) → Res o → Option τ} {post mid : τ → α → Prop}

/-- The automaton `δ` reads the operations and their answers from `t` on and refuses none,
and `post` holds when the program returns. -/
def Follows (δ : τ → (o : Op) → Res o → Option τ) (post : τ → α → Prop) :
    τ → Prog Op Res α → Prop
  | t, ret a => post t a
  | t, op o k => ∀ r, ∃ t', δ t o r = some t' ∧ Follows δ post t' (k r)

theorem follows_op {t : τ} {o : Op} {k : Res o → Prog Op Res α} (t' : Res o → τ)
    (hδ : ∀ r, δ t o r = some (t' r)) (hk : ∀ r, Follows δ post (t' r) (k r)) :
    Follows δ post t (op o k) := fun r => ⟨t' r, hδ r, hk r⟩

/-- **The automaton takes a step with the program.** -/
theorem Follows.step {t : τ} {o : Op} {k : Res o → Prog Op Res α}
    (h : Follows δ post t (op o k)) (r : Res o) :
    ∃ t', δ t o r = some t' ∧ Follows δ post t' (k r) := h r

theorem Follows.bind {post : τ → β → Prop} {t : τ} {p : Prog Op Res α} {q : α → Prog Op Res β}
    (hp : Follows δ mid t p) (hq : ∀ t a, mid t a → Follows δ post t (q a)) :
    Follows δ post t (p.bind q) := by
  induction p generalizing t with
  | ret a => exact hq t a hp
  | op o k ih =>
    intro r
    obtain ⟨t', hδ, hk⟩ := hp.step r
    exact ⟨t', hδ, ih r hk⟩

/-- A loop of which every turn takes the automaton one state on; `t n` is its state when `n`
turns are left. -/
theorem follows_forFrom {t : Nat → τ} {body : Nat → α → Prog Op Res α}
    (hb : ∀ n i a, Follows δ (fun t' _ => t' = t n) (t (n + 1)) (body i a)) (i n : Nat) (a : α) :
    Follows δ (fun t' _ => t' = t 0) (t n) (forFrom i n a body) := by
  induction n generalizing i a with
  | zero => exact rfl
  | succ n ih =>
    refine (hb n i a).bind fun t' a' ht' => ?_
    subst ht'
    exact ih (i + 1) a'

/-- Operations the automaton does not react to. -/
theorem Safe.follows {t : τ} {p : Prog Op Res α}
    (h : Safe (fun _ _ => True) (fun o => ∀ r, δ t o r = some t) p) :
    Follows δ (fun t' _ => t' = t) t p := by
  induction p with
  | ret a => exact rfl
  | op o k ih => exact fun r => ⟨t, h.1 r, ih r (h.2 r trivial)⟩

end

/-! ## What a program did -/

/-- The program can perform these operations, one after another, and return `a`. -/
inductive Runs : Prog Op Res α → List Op → α → Prop
  | ret (a : α) : Runs (ret a) [] a
  | op (o : Op) {k : Res o → Prog Op Res α} (r : Res o) {os : List Op} {a : α}
    (h : Runs (k r) os a) : Runs (op o k) (o :: os) a

variable {os : List Op} {a : α} {b : β}

theorem Runs.of_bind {p : Prog Op Res α} {q : α → Prog Op Res β} (h : Runs (p.bind q) os b) :
    ∃ os₁ a os₂, os = os₁ ++ os₂ ∧ Runs p os₁ a ∧ Runs (q a) os₂ b := by
  induction p generalizing os with
  | ret a => exact ⟨[], a, os, rfl, .ret a, h⟩
  | op o k ih =>
    cases h with
    | op _ r h =>
      obtain ⟨os₁, a, os₂, rfl, h₁, h₂⟩ := ih r h
      exact ⟨o :: os₁, a, os₂, rfl, .op o r h₁, h₂⟩

/-- The operations of a safe program are allowed. -/
theorem Safe.runs {p : Prog Op Res α} (hp : Safe ok φ p) (hok : ∀ o r, ok o r)
    (h : Runs p os a) : ∀ o ∈ os, φ o := by
  induction h with
  | ret a => nofun
  | op o r h ih => exact List.forall_mem_cons.mpr ⟨hp.1, ih (hp.2 r (hok o r))⟩

/-- The run in which `answer n` answers the operation after the first `n`. -/
def exec (answer : Nat → (o : Op) → Res o) : Nat → Prog Op Res α → List Op × α
  | _, ret a => ([], a)
  | n, op o k => ((o :: (exec answer (n + 1) (k (answer n o))).1),
      (exec answer (n + 1) (k (answer n o))).2)

theorem runs_exec (answer : Nat → (o : Op) → Res o) (n : Nat) (p : Prog Op Res α) :
    Runs p (exec answer n p).1 (exec answer n p).2 := by
  induction p generalizing n with
  | ret a => exact .ret a
  | op o k ih => exact .op o (answer n o) (ih (answer n o) (n + 1))

/-! ## What a program was answered -/

/-- The program can perform these operations with these answers, and return `a`. -/
inductive Traces : Prog Op Res α → List ((o : Op) × Res o) → α → Prop
  | ret (a : α) : Traces (ret a) [] a
  | op (o : Op) {k : Res o → Prog Op Res α} (r : Res o) {t : List ((o : Op) × Res o)} {a : α}
    (h : Traces (k r) t a) : Traces (op o k) (⟨o, r⟩ :: t) a

variable {t t' : List ((o : Op) × Res o)}

/-- A trace is a run with the answers written down. -/
theorem Traces.runs {p : Prog Op Res α} (h : Traces p t a) : Runs p (t.map (·.1)) a := by
  induction h with
  | ret a => exact .ret a
  | op o r h ih => exact .op o r ih

theorem traces_ret {a' : α} : Traces (ret a' : Prog Op Res α) t a ↔ t = [] ∧ a = a' := by
  constructor
  · intro h
    cases h with
    | ret => exact ⟨rfl, rfl⟩
  · rintro ⟨rfl, rfl⟩
    exact .ret _

theorem traces_op {o : Op} {k : Res o → Prog Op Res α} :
    Traces (op o k) t a ↔ ∃ r t', t = ⟨o, r⟩ :: t' ∧ Traces (k r) t' a := by
  constructor
  · intro h
    cases h with
    | op _ r h => exact ⟨r, _, rfl, h⟩
  · rintro ⟨r, t', rfl, h⟩
    exact .op o r h

/-- One operation, and then `q`. -/
theorem traces_perform {o : Op} {q : Res o → Prog Op Res β} :
    Traces ((op o ret).bind q) t b ↔ ∃ r t', t = ⟨o, r⟩ :: t' ∧ Traces (q r) t' b := traces_op

theorem traces_bind {p : Prog Op Res α} {q : α → Prog Op Res β} :
    Traces (p.bind q) t b ↔
      ∃ t₁ a t₂, t = t₁ ++ t₂ ∧ Traces p t₁ a ∧ Traces (q a) t₂ b := by
  constructor
  · intro h
    induction p generalizing t with
    | ret a => exact ⟨[], a, t, rfl, .ret a, h⟩
    | op o k ih =>
      obtain ⟨r, t', rfl, hk⟩ := traces_op.mp h
      obtain ⟨t₁, a, t₂, rfl, h₁, h₂⟩ := ih r hk
      exact ⟨⟨o, r⟩ :: t₁, a, t₂, rfl, .op o r h₁, h₂⟩
  · rintro ⟨t₁, a, t₂, rfl, h₁, h₂⟩
    induction h₁ with
    | ret a => exact h₂
    | op o r h ih => exact .op o r (ih h₂)

/-- **The rule for loops**: what holds of no iteration, and of one iteration more. -/
theorem Traces.forFrom {body : Nat → α → Prog Op Res α}
    {P : Nat → Nat → α → List ((o : Op) × Res o) → α → Prop} (hzero : ∀ i a, P i 0 a [] a)
    (hsucc : ∀ i n a t a' t' a'', Traces (body i a) t a' → P (i + 1) n a' t' a'' →
      P i (n + 1) a (t ++ t') a'') {i n : Nat} {a b : α} (h : Traces (forFrom i n a body) t b) :
    P i n a t b := by
  induction n generalizing i a t with
  | zero =>
    obtain ⟨rfl, rfl⟩ := traces_ret.mp h
    exact hzero i _
  | succ n ih =>
    obtain ⟨t₁, a', t₂, rfl, h₁, h₂⟩ := traces_bind.mp h
    exact hsucc i n a t₁ a' t₂ b h₁ (ih h₂)

/-- The trace in which every operation is answered by `answer`. -/
def respond (answer : (o : Op) → Res o) : Prog Op Res α → List ((o : Op) × Res o) × α
  | ret a => ([], a)
  | op o k =>
    (⟨o, answer o⟩ :: (respond answer (k (answer o))).1, (respond answer (k (answer o))).2)

theorem traces_respond (answer : (o : Op) → Res o) (p : Prog Op Res α) :
    Traces p (respond answer p).1 (respond answer p).2 := by
  induction p with
  | ret a => exact .ret a
  | op o k ih => exact .op o (answer o) (ih (answer o))

theorem respond_answers (answer : (o : Op) → Res o) (p : Prog Op Res α) :
    ∀ e ∈ (respond answer p).1, e.2 = answer e.1 := by
  induction p with
  | ret a => nofun
  | op o k ih => exact List.forall_mem_cons.mpr ⟨rfl, ih (answer o)⟩

/-! ## What an observer sees -/

section
variable {γ : Type} {obs : Op → Option γ} {P Q : List γ → Prop}

/-- What `obs` shows of any run of the program satisfies `P`. -/
def Shows (obs : Op → Option γ) (P : List γ → Prop) (p : Prog Op Res α) : Prop :=
  ∀ os a, Runs p os a → P (os.filterMap obs)

theorem shows_ret (h : P []) (a : α) : Shows obs P (ret a : Prog Op Res α) := by
  intro os a h'
  cases h' with
  | ret => exact h

theorem shows_hidden {o : Op} (ho : obs o = none) {k : Res o → Prog Op Res α}
    (hk : ∀ r, Shows obs P (k r)) : Shows obs P (op o k) := by
  intro os a h
  cases h with
  | op _ r h =>
    rw [List.filterMap_cons_none ho]
    exact hk r _ _ h

theorem shows_seen {o : Op} {c : γ} (ho : obs o = some c) {k : Res o → Prog Op Res α}
    (hk : ∀ r, Shows obs (fun cs => P (c :: cs)) (k r)) : Shows obs P (op o k) := by
  intro os a h
  cases h with
  | op _ r h =>
    rw [List.filterMap_cons_some ho]
    exact hk r _ _ h

theorem Shows.bind {p : Prog Op Res α} {q : α → Prog Op Res β} (hp : Shows obs Q p)
    (hq : ∀ a cs, Q cs → Shows obs (fun cs' => P (cs ++ cs')) (q a)) :
    Shows obs P (p.bind q) := by
  intro os b h
  obtain ⟨os₁, a, os₂, rfl, h₁, h₂⟩ := h.of_bind
  rw [List.filterMap_append]
  exact hq a _ (hp _ _ h₁) _ _ h₂

theorem Shows.mono {p : Prog Op Res α} (hp : Shows obs Q p) (h : ∀ cs, Q cs → P cs) :
    Shows obs P p := fun os a hr => h _ (hp os a hr)

theorem Shows.map {p : Prog Op Res α} (hp : Shows obs P p) (f : α → β) :
    Shows obs P (p.bind fun a => ret (f a)) := by
  refine hp.bind fun a cs hcs => shows_ret ?_ _
  rw [List.append_nil]
  exact hcs

/-- A program with hidden operations only. -/
theorem Safe.shows {p : Prog Op Res α} (hp : Safe (fun _ _ => True) (obs · = none) p) :
    Shows obs (· = []) p := fun _ _ h =>
  List.filterMap_eq_nil_iff.mpr (hp.runs (fun _ _ => trivial) h)

end

end Prog

end AtomicProgram
