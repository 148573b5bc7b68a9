import EcrToolkit.Transitions
import Mathlib.Data.Nat.Init
import Mathlib.Order.RelClasses

/-!
# Fair executions

An `Execution` is an infinite behaviour of a transition system: at each instant the
scheduler picks an action, or nobody moves.  A **party** is the set of actions that are
its steps; an execution is fair to a party that is not enabled for ever without moving.

`Execution.eventually` is the rule for what must happen.  In every state in which the
goal has not been reached it is some party's turn; a step of that party lowers a
well-founded rank, and a step of another either lowers it too, or leaves both the rank
and the turn as they are.
-/
namespace Transitions.System

variable {σ α ε : Type}

/-- An infinite execution whose every step meets `G`; `act n` is `none` when nobody
moves at instant `n`. -/
structure Execution (S : System σ α ε) (G : σ → α → Prop) (s₀ : σ) where
  state : Nat → σ
  act : Nat → Option α
  start : state 0 = s₀
  idle : ∀ n, act n = none → state (n + 1) = state n
  move : ∀ n a, act n = some a →
    G (state n) a ∧ ∃ es, S.step (state n) a = some (es, state (n + 1))

/-- The party can move. -/
def Enabled (S : System σ α ε) (party : α → Prop) (s : σ) : Prop :=
  ∃ a, party a ∧ S.step s a ≠ none

namespace Execution

variable {S : System σ α ε} {G : σ → α → Prop} {s₀ : σ} (e : S.Execution G s₀)

/-- **Weak fairness**: again and again the party moves, or cannot. -/
def Fair (party : α → Prop) : Prop :=
  ∀ n, ∃ m, n ≤ m ∧ ((∃ a, e.act m = some a ∧ party a) ∨ ¬ S.Enabled party (e.state m))

/-- Every state of an execution is the end of a finite run. -/
theorem exists_run (n : Nat) : ∃ evs, S.Run G s₀ evs (e.state n) := by
  induction n with
  | zero =>
    rw [e.start]
    exact ⟨[], .start⟩
  | succ n ih =>
    obtain ⟨evs, hrun⟩ := ih
    cases ha : e.act n with
    | none =>
      rw [e.idle n ha]
      exact ⟨evs, hrun⟩
    | some a =>
      obtain ⟨hg, es, hs⟩ := e.move n a ha
      exact ⟨evs ++ es, .step hrun hg hs⟩

/-- The same execution, when more can be said of its steps. -/
def narrow {G' : σ → α → Prop}
    (h : ∀ n a, e.act n = some a → G (e.state n) a → G' (e.state n) a) : S.Execution G' s₀ where
  state := e.state
  act := e.act
  start := e.start
  idle := e.idle
  move n a ha := ⟨h n a ha (e.move n a ha).1, (e.move n a ha).2⟩

/-- What allowed steps keep, later states keep. -/
theorem stays {P : σ → Prop} {n : Nat}
    (hstep : ∀ m a es, n ≤ m → P (e.state m) → G (e.state m) a →
      S.step (e.state m) a = some (es, e.state (m + 1)) → P (e.state (m + 1)))
    (h : P (e.state n)) {m : Nat} (hm : n ≤ m) : P (e.state m) := by
  induction m, hm using Nat.le_induction with
  | base => exact h
  | succ m hm ih =>
    cases ha : e.act m with
    | none => rwa [e.idle m ha]
    | some a =>
      obtain ⟨hg, es, hs⟩ := e.move m a ha
      exact hstep m a es hm ih hg hs

section Rank

variable {e} {κ ρ : Type} [LT ρ] {party : κ → α → Prop} {rank : σ → ρ}
  {turn : σ → κ} {I goal : σ → Prop}

/-- What one step does to the rank and the turn. -/
def Advances (party : κ → α → Prop) (rank : σ → ρ) (turn : σ → κ) (s : σ) (a : α) (s' : σ) :
    Prop :=
  rank s' < rank s ∨ rank s' = rank s ∧ turn s' = turn s ∧ ¬ party (turn s) a

/-- Up to instant `m` the goal is reached, the rank is lowered, or the party whose turn it
was at `n` has not moved and it is still its turn. -/
theorem advances_or_waits {n : Nat} (hI : ∀ m, n ≤ m → I (e.state m))
    (hstep : ∀ s a es s', I s → I s' → ¬ goal s → G s a → S.step s a = some (es, s') →
      Advances party rank turn s a s')
    {m : Nat} (hm : n ≤ m) :
    (∃ l, n ≤ l ∧ (goal (e.state l) ∨ rank (e.state l) < rank (e.state n))) ∨
      rank (e.state m) = rank (e.state n) ∧ turn (e.state m) = turn (e.state n) := by
  induction m, hm using Nat.le_induction with
  | base => exact Or.inr ⟨rfl, rfl⟩
  | succ m hm ih =>
    obtain hdone | ⟨hrank, hturn⟩ := ih
    · exact Or.inl hdone
    · cases ha : e.act m with
      | none =>
        rw [e.idle m ha]
        exact Or.inr ⟨hrank, hturn⟩
      | some a =>
        obtain ⟨hg, es, hs⟩ := e.move m a ha
        by_cases hgoal : goal (e.state m)
        · exact Or.inl ⟨m, hm, Or.inl hgoal⟩
        · obtain hlt | ⟨hrank', hturn', -⟩ :=
            hstep _ _ _ _ (hI m hm) (hI _ (Nat.le_succ_of_le hm)) hgoal hg hs
          · exact Or.inl ⟨m + 1, Nat.le_succ_of_le hm, Or.inr (hrank ▸ hlt)⟩
          · exact Or.inr ⟨hrank'.trans hrank, hturn'.trans hturn⟩

/-- **The rule for progress**: under fairness, what holds of every state from instant `n`
on leads to the goal. -/
theorem eventually [WellFoundedLT ρ] (rank : σ → ρ) (turn : σ → κ) (I goal : σ → Prop)
    (hfair : ∀ k, e.Fair (party k)) {n : Nat} (hI : ∀ m, n ≤ m → I (e.state m))
    (henabled : ∀ s, I s → ¬ goal s → S.Enabled (party (turn s)) s)
    (hstep : ∀ s a es s', I s → I s' → ¬ goal s → G s a → S.step s a = some (es, s') →
      Advances party rank turn s a s') :
    ∃ m, n ≤ m ∧ goal (e.state m) := by
  induction hr : rank (e.state n) using WellFoundedLT.induction generalizing n with
  | ind r ih =>
    -- from a later state of lower rank the goal is reached
    have hlower : ∀ l, n ≤ l → rank (e.state l) < rank (e.state n) →
        ∃ m, n ≤ m ∧ goal (e.state m) := by
      intro l hl hlt
      obtain ⟨m, hm, hgoal⟩ := ih _ (hr ▸ hlt) (fun m hm => hI m (Nat.le_trans hl hm)) rfl
      exact ⟨m, Nat.le_trans hl hm, hgoal⟩
    obtain ⟨m, hm, hmoves⟩ := hfair (turn (e.state n)) n
    obtain ⟨l, hl, hgoal | hlt⟩ | ⟨hrank, hturn⟩ := advances_or_waits hI hstep hm
    · exact ⟨l, hl, hgoal⟩
    · exact hlower l hl hlt
    · by_cases hgoal : goal (e.state m)
      · exact ⟨m, hm, hgoal⟩
      · obtain ⟨a, ha, hparty⟩ | hdisabled := hmoves
        · obtain ⟨hg, es, hs⟩ := e.move m a ha
          obtain hlt | ⟨-, -, hnot⟩ :=
            hstep _ _ _ _ (hI m hm) (hI _ (Nat.le_succ_of_le hm)) hgoal hg hs
          · exact hlower (m + 1) (Nat.le_succ_of_le hm) (hrank ▸ hlt)
          · exact absurd (hturn ▸ hparty) hnot
        · rw [← hturn] at hdisabled
          exact absurd (henabled _ (hI m hm) hgoal) hdisabled

end Rank

end Execution

/-! ## A schedule, and then nothing -/

section Schedule

variable {S : System σ α ε} {G : σ → α → Prop} {s₀ t : σ}

end Schedule

end Transitions.System
