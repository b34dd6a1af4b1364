import Winners.Error
import Winners.Threshold.Direction

set_option autoImplicit false

/-! # Threshold schedules

A schedule proposes the next acceptance threshold from the current one and from the fitness of
the population. Three schedules come with the library: one follows the median of the fitness, one
moves by a constant step and one closes a constant share of the distance to the goal. All three
stop at the goal. A schedule may remember something from one proposal to the next (`σ`); these
three do not and pass on whatever memory they are given.
-/

namespace Winners

/-! ## The median -/

/-- The middle value in the total order, or the mean of the two middle values. -/
def median (values : List Binary64) : Option Binary64 :=
  let sorted := values.mergeSort Binary64.totalLe
  let middle := sorted.length / 2
  if sorted.length % 2 = 0 then do
    let lower ← sorted[middle - 1]?
    let upper ← sorted[middle]?
    return (lower + upper) / .ofNat 2
  else sorted[middle]?

/-! ## Schedules -/

/-- A way to move the threshold, with a memory `σ`. A search looks up the direction and the goal in
every round. They are constants here, as they are for every schedule that comes with the library;
only what is proposed can depend on the memory. -/
structure Schedule (σ : Type) where
  direction : Direction
  goal : Binary64
  /-- The threshold before the first round. -/
  initial : Binary64
  /-- Whether the parameters make sense. -/
  validity : Except Error Unit
  /-- The next threshold, from the current one and the fitness of the population. -/
  propose : Binary64 → List Binary64 → σ → Binary64 × σ

/-- The goal is a finite number, and the start is not already there. -/
def checkGoal (direction : Direction) (goal : Binary64) (initial : Option Binary64) :
    Except Error Unit := do
  if !goal.isFinite then throw (.invalid (.goal goal))
  match initial with
  | none => return ()
  | some start =>
      if start.isNaN then throw (.invalid .initialNaN)
      if direction.reached start goal then throw (.invalid (.initialPastGoal start goal))

/-- A schedule without a memory of its own. -/
def Schedule.memoryless {σ : Type} (direction : Direction) (goal : Binary64)
    (initial : Option Binary64) (parameter : Except Error Unit)
    (propose : Binary64 → List Binary64 → Binary64) : Schedule σ where
  direction
  goal
  initial := initial.getD direction.loosest
  validity := do
    checkGoal direction goal initial
    parameter
  propose current fitness memory := (propose current fitness, memory)

/-- The median of the fitness, moved by `slack` towards the goal. -/
structure MedianSchedule where
  direction : Direction
  goal : Binary64
  slack : Binary64 := .zero
  initial : Option Binary64 := none

namespace MedianSchedule

def propose (s : MedianSchedule) (current : Binary64) (fitness : List Binary64) : Binary64 :=
  match median fitness with
  | none => current
  | some m => s.direction.clampToGoal (s.direction.advance m s.slack) s.goal

def checkSlack (s : MedianSchedule) : Except Error Unit :=
  if s.slack.isFinite ∧ .zero ≤ s.slack then .ok () else .error (.invalid (.slack s.slack))

def schedule {σ : Type} (s : MedianSchedule) : Schedule σ :=
  .memoryless s.direction s.goal s.initial s.checkSlack s.propose

end MedianSchedule

/-- The number that a threshold moves from: itself, or the median of the fitness while it is not
finite. -/
def startingPoint (current : Binary64) (fitness : List Binary64) : Option Binary64 :=
  if current.isFinite then some current else median fitness

/-- The current threshold moved by a constant `step`. -/
structure FixedStepSchedule where
  direction : Direction
  goal : Binary64
  step : Binary64
  initial : Option Binary64 := none

namespace FixedStepSchedule

def propose (s : FixedStepSchedule) (current : Binary64) (fitness : List Binary64) : Binary64 :=
  match startingPoint current fitness with
  | none => current
  | some base => s.direction.clampToGoal (s.direction.advance base s.step) s.goal

def checkStep (s : FixedStepSchedule) : Except Error Unit :=
  if s.step.isFinite ∧ .zero < s.step then .ok () else .error (.invalid (.step s.step))

def schedule {σ : Type} (s : FixedStepSchedule) : Schedule σ :=
  .memoryless s.direction s.goal s.initial s.checkStep s.propose

end FixedStepSchedule

/-- The current threshold moved by a constant share of its distance to the goal. A proposal very
near the goal becomes the goal, which it would never reach otherwise. -/
structure FractionSchedule where
  direction : Direction
  goal : Binary64
  fraction : Binary64
  initial : Option Binary64 := none

namespace FractionSchedule

/-- The distance from the goal below which a proposal becomes the goal. -/
def snap : Binary64 := .ofDecimal 1 (-9)

def propose (s : FractionSchedule) (current : Binary64) (fitness : List Binary64) : Binary64 :=
  match startingPoint current fitness with
  | none => current
  | some base =>
      let next := base + s.fraction * (s.goal - base)
      if (next - s.goal).abs < snap then s.goal else s.direction.clampToGoal next s.goal

def checkFraction (s : FractionSchedule) : Except Error Unit :=
  if .zero < s.fraction ∧ s.fraction ≤ .ofNat 1 then .ok ()
  else .error (.invalid (.fraction s.fraction))

def schedule {σ : Type} (s : FractionSchedule) : Schedule σ :=
  .memoryless s.direction s.goal s.initial s.checkFraction s.propose

end FractionSchedule

/-- The thresholds of a list in order, then its last one over and over. Its memory is the number
of proposals made. -/
def Schedule.listed (direction : Direction) (goal initial : Binary64)
    (proposals : List Binary64) : Schedule Nat where
  direction
  goal
  initial
  validity := .ok ()
  propose current _ position :=
    ((proposals[position]? <|> proposals.getLast?).getD current, position + 1)

end Winners
