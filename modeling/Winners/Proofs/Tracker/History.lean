import Winners.Tracker.Basic

set_option autoImplicit false

/-! # Histories of a tracker

A history is a list of moves that are tried one after the other; a refused move leaves the tracker
as it is. To be reached by a history (`Reachable`) is a property that mutations keep (`Kept`).
-/

namespace Winners.Tracker

variable {τ μ ν : Type} [Tracker τ μ ν]

/-- The tracker after a move has been tried. -/
def attempt (t : τ) (move : μ) : τ := (apply t move).2

theorem attempt_of_ok {t t' : τ} {move undo : μ} (h : mutate t move = .ok (undo, t')) :
    attempt t move = t' := by
  rw [attempt, mutate_eq_ok_iff.mp h]

theorem attempt_of_error {t : τ} {move : μ} {e : Error} (h : mutate t move = .error e) :
    attempt t move = t := by
  rw [attempt, mutate_eq_error_iff.mp h]

/-- The tracker after a history. -/
def replay (t : τ) (moves : List μ) : τ := moves.foldl attempt t

@[simp] theorem replay_nil (t : τ) : replay t ([] : List μ) = t := rfl

@[simp] theorem replay_cons (t : τ) (move : μ) (moves : List μ) :
    replay t (move :: moves) = replay (attempt t move) moves := rfl

theorem replay_append (t : τ) (before after : List μ) :
    replay t (before ++ after) = replay (replay t before) after :=
  List.foldl_append

/-- The trackers that histories reach from those in `start`. -/
def Reachable (start : τ → Prop) (t : τ) : Prop := ∃ t₀ moves, start t₀ ∧ replay t₀ moves = t

namespace Reachable

variable {start : τ → Prop} {t t' : τ}

theorem of_start (h : start t) : Reachable start t := ⟨t, [], h, rfl⟩

theorem attempt (h : Reachable start t) (move : μ) : Reachable start (attempt t move) := by
  obtain ⟨t₀, moves, h₀, rfl⟩ := h
  exact ⟨t₀, moves ++ [move], h₀, replay_append t₀ moves [move]⟩

theorem mutate (h : Reachable start t) {move undo : μ}
    (hmove : Tracker.mutate t move = .ok (undo, t')) : Reachable start t' := by
  rw [← attempt_of_ok hmove]
  exact h.attempt move

end Reachable

/-- A property of trackers that no mutation breaks. -/
def Kept (P : τ → Prop) : Prop :=
  ∀ ⦃t t' : τ⦄ ⦃move undo : μ⦄, P t → mutate t move = .ok (undo, t') → P t'

theorem Kept.attempt {P : τ → Prop} (h : Kept P) {t : τ} (ht : P t) (move : μ) :
    P (attempt t move) := by
  cases hmove : Tracker.mutate t move with
  | ok moved =>
      rw [attempt_of_ok hmove]
      exact h ht hmove
  | error e =>
      rw [attempt_of_error hmove]
      exact ht

theorem Kept.replay {P : τ → Prop} (h : Kept P) {t : τ} (ht : P t) (moves : List μ) :
    P (replay t moves) := by
  induction moves generalizing t with
  | nil => exact ht
  | cons move moves ih => exact ih (h.attempt ht move)

theorem kept_reachable (start : τ → Prop) : Kept (Reachable start) :=
  fun _ _ _ _ h hmove => h.mutate hmove

end Winners.Tracker
