import Winners.Proofs.Number.Exact
import Winners.Proofs.Sequence
import Winners.Proofs.Threshold.Order
import Winners.Threshold.Schedule

set_option autoImplicit false

/-! # Schedules stop at their goal

A schedule stops at its goal (`StopsAtGoal`) when its first threshold is before the goal and each
proposal is the current threshold, the goal itself or a threshold before the goal. The three
schedules that come with the library do once their parameters have been accepted
(`Shipped.stopsAtGoal`): the goal is then a finite number, so an unbounded start is before it, and
whatever is at the goal or past it has been replaced by the goal. Nothing depends on how
proposals are rounded. They may also be NaNs, which are not at the goal.
-/

namespace Winners

/-! ## The goal -/

namespace Direction

variable {d : Direction} {x y value goal : Binary64}

theorem reached_of_improves (h : d.improves x y = true) : d.reached x y = true := by
  cases d with
  | minimize =>
      obtain ⟨hx, hy, hlt⟩ := of_decide_eq_true h
      exact decide_eq_true ⟨hx, hy, hlt.le⟩
  | maximize =>
      obtain ⟨hy, hx, hlt⟩ := of_decide_eq_true h
      exact decide_eq_true ⟨hy, hx, hlt.le⟩

/-- What is at the goal or before it is not past it. -/
theorem not_past_of_stops (h : value = goal ∨ d.reached value goal = false) :
    d.improves value goal = false := by
  rcases h with rfl | hahead
  · exact improves_self d _
  · by_contra hpast
    rw [reached_of_improves (Bool.eq_true_of_not_eq_false hpast)] at hahead
    cases hahead

/-- Clamping leaves nothing past the goal. -/
theorem clampToGoal_stops (d : Direction) (value goal : Binary64) :
    d.clampToGoal value goal = goal ∨ d.reached (d.clampToGoal value goal) goal = false := by
  unfold clampToGoal
  split
  · exact Or.inl rfl
  · next h => exact Or.inr (Bool.eq_false_iff.mpr h)

/-- The threshold that everything passes is before every finite goal. -/
theorem not_reached_loosest (d : Direction) (hgoal : goal.isFinite = true) :
    d.reached d.loosest goal = false := by
  have hrank := Binary64.isFinite_iff_rank.mp hgoal
  have hinfinity : Binary64.infinity.rank = Binary64.infinityMagnitude := by decide +kernel
  have hnegative : Binary64.infinity.negate.rank = -(Binary64.infinityMagnitude : Int) := by
    decide +kernel
  cases d with
  | minimize =>
      refine decide_eq_false fun h => ?_
      have := h.2.2
      simp only [loosest] at this
      omega
  | maximize =>
      refine decide_eq_false fun h => ?_
      have := h.2.2
      simp only [loosest] at this
      omega

end Direction

/-! ## Schedules -/

namespace Schedule

variable {σ : Type}

/-- **A schedule that stops at its goal.** -/
structure StopsAtGoal (schedule : Schedule σ) : Prop where
  goal : schedule.goal.isNaN = false
  initial : schedule.direction.reached schedule.initial schedule.goal = false
  propose : ∀ current fitness plan, let proposed := (schedule.propose current fitness plan).1
    proposed = current ∨ proposed = schedule.goal ∨
      schedule.direction.reached proposed schedule.goal = false

/-- The schedules that come with the library. -/
inductive Shipped : Schedule σ → Prop
  | median (s : MedianSchedule) : Shipped s.schedule
  | fixedStep (s : FixedStepSchedule) : Shipped s.schedule
  | fraction (s : FractionSchedule) : Shipped s.schedule

end Schedule

/-- An accepted goal is finite, and an accepted start is before it. -/
theorem checkGoal_eq_ok {direction : Direction} {goal : Binary64} {initial : Option Binary64}
    (h : checkGoal direction goal initial = .ok ()) :
    goal.isFinite = true ∧ direction.reached (initial.getD direction.loosest) goal = false := by
  cases hfinite : goal.isFinite with
  | false =>
      -- whatever the start is, the goal is refused first
      unfold checkGoal at h
      rw [hfinite] at h
      cases initial <;> cases h
  | true =>
      refine ⟨rfl, ?_⟩
      cases initial with
      | none => exact direction.not_reached_loosest hfinite
      | some start =>
          rw [checkGoal, hfinite] at h
          dsimp only [Option.getD_some]
          cases hreached : direction.reached start goal with
          | false => rfl
          | true =>
              rw [hreached] at h
              cases hnan : start.isNaN with
              | false => rw [hnan] at h; cases h
              | true => rw [hnan] at h; cases h

theorem stopsAtGoal_memoryless {σ : Type} {direction : Direction} {goal : Binary64}
    {initial : Option Binary64} {parameter : Except Error Unit}
    {propose : Binary64 → List Binary64 → Binary64}
    (hvalid : (Schedule.memoryless (σ := σ) direction goal initial parameter propose).validity =
      .ok ())
    (hpropose : ∀ current fitness, propose current fitness = current ∨
      propose current fitness = goal ∨ direction.reached (propose current fitness) goal = false) :
    (Schedule.memoryless (σ := σ) direction goal initial parameter propose).StopsAtGoal := by
  obtain ⟨⟨⟩, hgoal, -⟩ := bind_eq_ok.mp hvalid
  obtain ⟨hfinite, hinitial⟩ := checkGoal_eq_ok hgoal
  exact ⟨Binary64.isNaN_of_isFinite hfinite, hinitial, fun current fitness _ =>
    hpropose current fitness⟩

/-! ## The proposals that come with the library -/

theorem MedianSchedule.propose_stops (s : MedianSchedule) (current : Binary64)
    (fitness : List Binary64) : s.propose current fitness = current ∨
      s.propose current fitness = s.goal ∨
      s.direction.reached (s.propose current fitness) s.goal = false := by
  unfold propose
  split
  · exact Or.inl rfl
  · exact Or.inr (s.direction.clampToGoal_stops _ s.goal)

theorem FixedStepSchedule.propose_stops (s : FixedStepSchedule) (current : Binary64)
    (fitness : List Binary64) : s.propose current fitness = current ∨
      s.propose current fitness = s.goal ∨
      s.direction.reached (s.propose current fitness) s.goal = false := by
  unfold propose
  split
  · exact Or.inl rfl
  · exact Or.inr (s.direction.clampToGoal_stops _ s.goal)

/-- A proposal near the goal becomes the goal, any other one is clamped. -/
theorem FractionSchedule.propose_stops (s : FractionSchedule) (current : Binary64)
    (fitness : List Binary64) : s.propose current fitness = current ∨
      s.propose current fitness = s.goal ∨
      s.direction.reached (s.propose current fitness) s.goal = false := by
  unfold propose
  split
  · exact Or.inl rfl
  · dsimp only
    split
    · exact Or.inr (Or.inl rfl)
    · exact Or.inr (s.direction.clampToGoal_stops _ s.goal)

/-- **The schedules that come with the library stop at their goal.** -/
theorem Schedule.Shipped.stopsAtGoal {σ : Type} {schedule : Schedule σ} (h : schedule.Shipped)
    (hvalid : schedule.validity = .ok ()) : schedule.StopsAtGoal := by
  cases h with
  | median s => exact stopsAtGoal_memoryless hvalid s.propose_stops
  | fixedStep s => exact stopsAtGoal_memoryless hvalid s.propose_stops
  | fraction s => exact stopsAtGoal_memoryless hvalid s.propose_stops

end Winners
