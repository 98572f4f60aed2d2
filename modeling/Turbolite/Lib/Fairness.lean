import Mathlib.Data.Nat.Init
import Mathlib.Tactic.Push
import Mathlib.Tactic.ByContra

/-!
# Turbolite.Lib.Fairness

Runs without an end of a partial step function, and what fair ones lead to. A set of events is treated
weakly fairly when it is not enabled for ever without one of its events happening. `leadsTo_of_rank` is the
rule the liveness arguments go through: while the goal is not reached a fair event is enabled, every fair
event lowers a rank, and no other event raises it.
-/

namespace Fairness

variable {σ ε : Type*}

/-- The states of a run, and the event after each of them. -/
structure Behavior (step : σ → ε → Option σ) where
  state : Nat → σ
  event : Nat → ε
  next : ∀ n, step (state n) (event n) = some (state (n + 1))

/-- Some event of the set can happen. -/
def Enabled (step : σ → ε → Option σ) (A : ε → Prop) (s : σ) : Prop :=
  ∃ e s', A e ∧ step s e = some s'

namespace Behavior

variable {step : σ → ε → Option σ} (b : Behavior step)

/-- An action that stays enabled is taken at last. -/
def WeaklyFair (A : ε → Prop) : Prop :=
  ∀ n, (∀ m, n ≤ m → Enabled step A (b.state m)) → ∃ m, n ≤ m ∧ A (b.event m)

/-- Whenever `P` holds, `Q` holds then or later. -/
def LeadsTo (P Q : σ → Prop) : Prop := ∀ n, P (b.state n) → ∃ m, n ≤ m ∧ Q (b.state m)

variable {b} {A : ε → Prop} {P Q : σ → Prop}

/-- As long as the goal is not reached, `P` stays and the rank does not rise. -/
theorem keeps_of_not_reached {rank : σ → Nat}
    (hother : ∀ n, P (b.state n) → ¬ Q (b.state n) → Q (b.state (n + 1)) ∨
      (P (b.state (n + 1)) ∧ rank (b.state (n + 1)) ≤ rank (b.state n)))
    {n : Nat} (hn : P (b.state n)) (hno : ∀ m, n ≤ m → ¬ Q (b.state m)) :
    ∀ m, n ≤ m → P (b.state m) ∧ rank (b.state m) ≤ rank (b.state n) := by
  intro m hm
  induction m, hm using Nat.le_induction with
  | base => exact ⟨hn, Nat.le_refl _⟩
  | succ m hm ih =>
    rcases hother m ih.1 (hno m hm) with hq | ⟨hp, hle⟩
    · exact absurd hq (hno (m + 1) (Nat.le_succ_of_le hm))
    · exact ⟨hp, Nat.le_trans hle ih.2⟩

/-- A goal is reached when fair events lower a rank on the way to it and the others do not raise it. -/
theorem leadsTo_of_rank (rank : σ → Nat) (hfair : b.WeaklyFair A)
    (henabled : ∀ s, P s → ¬ Q s → Enabled step A s)
    (hact : ∀ n, P (b.state n) → ¬ Q (b.state n) → A (b.event n) → Q (b.state (n + 1)) ∨
      (P (b.state (n + 1)) ∧ rank (b.state (n + 1)) < rank (b.state n)))
    (hother : ∀ n, P (b.state n) → ¬ Q (b.state n) → Q (b.state (n + 1)) ∨
      (P (b.state (n + 1)) ∧ rank (b.state (n + 1)) ≤ rank (b.state n))) : b.LeadsTo P Q := by
  intro n hn
  -- by induction on the rank, which a fair event lowers unless it reaches the goal
  induction hr : rank (b.state n) using Nat.strong_induction_on generalizing n with
  | _ r ih =>
    by_contra hno
    push Not at hno
    have hkeep := keeps_of_not_reached hother hn hno
    obtain ⟨m, hm, ha⟩ := hfair n fun m hm => henabled _ (hkeep m hm).1 (hno m hm)
    rcases hact m (hkeep m hm).1 (hno m hm) ha with hq | ⟨hp, hlt⟩
    · exact hno (m + 1) (Nat.le_succ_of_le hm) hq
    · have hlower : rank (b.state (m + 1)) < r := by
        have hle := (hkeep m hm).2
        omega
      obtain ⟨k, hk, hq⟩ := ih _ hlower (m + 1) hp rfl
      exact hno k (by omega) hq

end Behavior

end Fairness
