import Winners.Error

set_option autoImplicit false

/-! # Trackers

A tracker is an assignment to the elements of a fixed object (a graph, a code) together with
caches of its score and of every element's marginal: the change of the score that moving the
element would cause. A mutation changes one element and patches the caches instead of computing
them again; `rebuild` computes them again.

Trackers are values. The object that a tracker is about is a parameter of its type.
-/

namespace Winners

/-- What a search needs to know of a tracker `τ` with moves `μ` and element values `ν`. -/
class Tracker (τ : Type) (μ ν : outParam Type) where
  /-- Number of elements. -/
  size : τ → Nat
  /-- The cached score. -/
  score : τ → Int
  /-- What a search ranks trackers by. -/
  fitness : τ → Binary64 := fun t => .ofInt (score t)
  /-- The cached marginal of an element. -/
  marginal : τ → Nat → Except Error Int
  /-- Tries a move. Beside the result, which is the move that takes it back, stands the tracker as
  it is then. -/
  apply : τ → μ → Except Error μ × τ
  /-- A move that is refused leaves the tracker as it is. -/
  unchanged : ∀ {t : τ} {move : μ} {e : Error}, (apply t move).1 = .error e → (apply t move).2 = t
  /-- The values of the elements in order. -/
  assignment : τ → List ν
  /-- The score computed from the assignment alone. -/
  scoreFromScratch : τ → Int
  /-- The tracker of the same assignment with caches computed from it alone. -/
  rebuild : τ → τ
  /-- How far apart the scores of two assignments can be. -/
  scoreSpan : τ → Nat
  /-- How log lines show a move. -/
  moveText : μ → String

namespace Tracker

/-- Moves the element that a bare number stands for. A number that is out of range is refused. -/
def applyAt {τ : Type} {n : Nat} (move : τ → Fin n → τ) (t : τ) (i : Nat) :
    Except Error Nat × τ :=
  match checkIndex i n with
  | .error e => (.error e, t)
  | .ok element => (.ok i, move t element)

theorem applyAt_of_lt {τ : Type} {n : Nat} (move : τ → Fin n → τ) (t : τ) {i : Nat} (h : i < n) :
    applyAt move t i = (.ok i, move t ⟨i, h⟩) := by
  rw [applyAt, checkIndex_of_lt h]

theorem applyAt_of_le {τ : Type} {n : Nat} (move : τ → Fin n → τ) (t : τ) {i : Nat} (h : n ≤ i) :
    applyAt move t i = (.error (.indexOutOfRange i n), t) := by
  rw [applyAt, checkIndex_eq_error h]

/-- Only elements can be moved. -/
theorem exists_of_applyAt {τ : Type} {n : Nat} {move : τ → Fin n → τ} {t t' : τ} {i undo : Nat}
    (h : applyAt move t i = (.ok undo, t')) :
    ∃ element : Fin n, i = element.val ∧ undo = element.val ∧ t' = move t element := by
  rcases Nat.lt_or_ge i n with hlt | hge
  · rw [applyAt_of_lt move t hlt] at h
    cases h
    exact ⟨⟨i, hlt⟩, rfl, rfl, rfl⟩
  · rw [applyAt_of_le move t hge] at h
    cases h

theorem applyAt_unchanged {τ : Type} {n : Nat} {move : τ → Fin n → τ} {t : τ} {i : Nat} {e : Error}
    (h : (applyAt move t i).1 = .error e) : (applyAt move t i).2 = t := by
  rcases Nat.lt_or_ge i n with hlt | hge
  · rw [applyAt_of_lt move t hlt] at h
    cases h
  · rw [applyAt_of_le move t hge]

variable {τ μ ν : Type} [Tracker τ μ ν]

/-- The move that takes a move back, and the tracker after it, unless it is refused. -/
def mutate (t : τ) (move : μ) : Except Error (μ × τ) :=
  (apply t move).1.map fun undo => (undo, (apply t move).2)

theorem mutate_eq_ok_iff {t t' : τ} {move undo : μ} :
    mutate t move = .ok (undo, t') ↔ apply t move = (.ok undo, t') := by
  unfold mutate
  rcases apply t move with ⟨e | undo', t''⟩
  · simp [Except.map]
  · simp [Except.map]

theorem mutate_eq_error_iff {t : τ} {move : μ} {e : Error} :
    mutate t move = .error e ↔ apply t move = (.error e, t) := by
  constructor
  · intro h
    have hresult : (apply t move).1 = .error e := by
      unfold mutate at h
      cases hresult : (apply t move).1 with
      | error e' =>
          rw [hresult] at h
          exact congrArg _ (Except.error.inj h)
      | ok undo =>
          rw [hresult] at h
          cases h
    exact Prod.ext hresult (unchanged hresult)
  · intro h
    rw [mutate, h]
    rfl

end Tracker

end Winners
