import Winners.Proofs.Tracker.History
import Winners.Walk.Mixing

set_option autoImplicit false

/-! # What walks keep

A walk changes its tracker by mutations only, so it keeps what they keep, whatever the policy and
the draws, and also when a move is refused and the walk ends there. A policy can keep more than
single mutations do (`Policy.Keeps`), because the moves of one of its steps may make up for each
other.
-/

namespace Winners

variable {τ μ ν π ω : Type} [Tracker τ μ ν] {P : τ → Prop}

/-- A property of trackers that no walk step of a policy breaks. -/
def Policy.Keeps (policy : Policy τ μ π) (P : τ → Prop) : Prop :=
  ∀ ⦃ω : Type⦄ (onMutation : μ → τ → ω → ω) ⦃walk : Walk τ π ω⦄, P walk.tracker →
    P (walk.step policy onMutation).2.tracker

namespace Tracker.Kept

theorem perform (h : Kept P) (onMutation : μ → τ → ω → ω) (moves : List μ) {t : τ} (ht : P t)
    (report : ω) : P (perform onMutation moves t report).2.1 := by
  induction moves generalizing t report with
  | nil => exact ht
  | cons move moves ih =>
      rw [perform_cons]
      cases hmove : mutate t move with
      | error e => exact ht
      | ok result => exact ih (h ht hmove) _

/-- **Every policy keeps what mutations keep.** -/
theorem keeps (h : Kept P) (policy : Policy τ μ π) : policy.Keeps P :=
  fun _ onMutation _ hwalk => h.perform onMutation _ hwalk _

end Tracker.Kept

namespace Policy.Keeps

variable {policy : Policy τ μ π}

theorem mixFrom (h : policy.Keeps P) (onMutation : μ → τ → ω → ω) (count steps : Nat)
    {walk : Walk τ π ω} (hwalk : P walk.tracker) :
    P (walk.mixFrom policy onMutation count steps).2.tracker := by
  induction steps generalizing count walk with
  | zero => exact hwalk
  | succ steps ih =>
      have hstep := h onMutation hwalk
      rw [Walk.mixFrom]
      cases hresult : walk.step policy onMutation with
      | mk result walk' =>
          rw [hresult] at hstep
          cases result with
          | error e => exact hstep
          | ok moved => exact ih _ hstep

/-- **Walks keep what their steps keep.** -/
theorem mix (h : policy.Keeps P) (onMutation : μ → τ → ω → ω) (steps : Nat)
    {walk : Walk τ π ω} (hwalk : P walk.tracker) :
    P (walk.mix policy onMutation steps).2.tracker :=
  h.mixFrom onMutation 0 steps hwalk

end Policy.Keeps

end Winners
