import Winners.Number.Arithmetic

set_option autoImplicit false

/-! # Directions

Which way fitness improves, and what follows from it: when a value is better than another, when
a particle passes a threshold, and which thresholds are still ahead. `room` counts the
magnitudes that are better than a threshold; it shrinks whenever the threshold improves
(`room_lt_of_improves`), so a threshold cannot improve forever.
-/

namespace Winners

inductive Direction
  | minimize
  | maximize
deriving DecidableEq

namespace Direction

/-- Whether `candidate` is strictly better than `current`. -/
def improves (d : Direction) (candidate current : Binary64) : Bool :=
  match d with
  | minimize => decide (candidate < current)
  | maximize => decide (current < candidate)

/-- Whether a fitness is at least as good as a threshold. -/
def passes (d : Direction) (fitness threshold : Binary64) : Bool :=
  match d with
  | minimize => decide (fitness ≤ threshold)
  | maximize => decide (threshold ≤ fitness)

/-- Whether a threshold is at the goal or past it. -/
def reached (d : Direction) (threshold goal : Binary64) : Bool := d.passes threshold goal

/-- The threshold that every fitness passes. -/
def loosest : Direction → Binary64
  | minimize => .infinity
  | maximize => Binary64.infinity.negate

/-- A value moved by `amount` towards better ones. -/
def advance (d : Direction) (value amount : Binary64) : Binary64 :=
  match d with
  | minimize => value - amount
  | maximize => value + amount

/-- A value, or the goal where the value is at the goal or past it. -/
def clampToGoal (d : Direction) (value goal : Binary64) : Binary64 :=
  if d.reached value goal then goal else value

/-- A bound on the number of times that a threshold can still improve. -/
def room (d : Direction) (threshold : Binary64) : Nat :=
  match d with
  | minimize => (threshold.rank + 0x8000000000000000).toNat
  | maximize => (0x8000000000000000 - threshold.rank).toNat

theorem room_lt_of_improves {d : Direction} {new old : Binary64} (h : d.improves new old) :
    d.room new < d.room old := by
  have := new.rank_lt
  have := new.neg_lt_rank
  have := old.rank_lt
  have := old.neg_lt_rank
  cases d <;> simp only [improves, decide_eq_true_eq, Binary64.lt_def] at h <;>
    simp only [room] <;> omega

end Direction

end Winners
