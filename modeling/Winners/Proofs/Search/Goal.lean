import Winners.Proofs.Search.Course
import Winners.Proofs.Search.Solved
import Winners.Proofs.Threshold.Goal

set_option autoImplicit false

/-! # The way to the goal

A search whose schedule stops at its goal never has a threshold past it. `Underway` says where the
threshold is: before the goal while the search runs and after it has stalled, and at the goal
when it has succeeded. A round adopts a proposal only if it improves the threshold, which the
current threshold does not, so what it adopts is the goal or a threshold before it
(`Round.underway`). The result for the schedules that come with the library is
`threshold_stops_at_goal`.
-/

namespace Winners.Search

variable {τ μ ν π σ ω : Type} [Tracker τ μ ν] {setup : Setup τ μ ν π σ ω} {s s' : Search τ π σ ω}

theorem validity_of_start {memory : π} {plan : σ} {report : ω} {fallbackSeed : UInt64}
    {factory : Factory τ} (h : start setup memory plan report fallbackSeed factory = .ok s) :
    setup.schedule.validity = .ok () := by
  obtain ⟨-, -, h⟩ := bind_eq_ok.mp h
  obtain ⟨⟨⟩, hvalid, -⟩ := bind_eq_ok.mp h
  exact hvalid

/-- **Where the threshold of a search is.** -/
structure Underway (setup : Setup τ μ ν π σ ω) (s : Search τ π σ ω) : Prop where
  not_past : setup.schedule.direction.improves s.threshold setup.schedule.goal = false
  ahead : s.state = .running ∨ s.state = .stalled →
    setup.schedule.direction.reached s.threshold setup.schedule.goal = false
  arrived : s.state = .succeeded → s.threshold = setup.schedule.goal

theorem Opened.underway {factory : Factory τ} (hgoal : setup.schedule.StopsAtGoal)
    (h : Opened setup factory s) : Underway setup s where
  not_past := by
    rw [h.threshold]
    exact Direction.not_past_of_stops (Or.inr hgoal.initial)
  ahead := by
    intro _
    rw [h.threshold]
    exact hgoal.initial
  arrived := by
    intro hstate
    rw [h.state] at hstate
    cases hstate

/-- What a round adopts is the goal or before it. -/
theorem proposal_stops (hgoal : setup.schedule.StopsAtGoal)
    (hbetter : setup.schedule.direction.improves (proposal setup s).1 s.threshold = true) :
    (proposal setup s).1 = setup.schedule.goal ∨
      setup.schedule.direction.reached (proposal setup s).1 setup.schedule.goal = false := by
  refine (hgoal.propose s.threshold (walked setup s).population.fitness s.plan).resolve_left ?_
  intro hsame
  rw [show (proposal setup s).1 = s.threshold from hsame, Direction.improves_self] at hbetter
  cases hbetter

/-- **A round without an error keeps the search on its way.** -/
theorem Round.underway (hgoal : setup.schedule.StopsAtGoal) {state : SearchState}
    (hround : Round setup s (.ok state) s') (h : Underway setup s) : Underway setup s' := by
  cases hround with
  | ended => exact h
  | stalled hrunning =>
      refine ⟨?_, ?_, ?_⟩
      · rw [threshold_announce]
        exact h.not_past
      · intro _
        rw [threshold_announce]
        exact h.ahead (Or.inl hrunning)
      · intro hstate
        rw [state_announce] at hstate
        cases hstate
  | extinct _ _ hbetter =>
      refine ⟨?_, ?_, ?_⟩
      · rw [threshold_announce]
        exact Direction.not_past_of_stops (proposal_stops hgoal hbetter)
      · intro hstate
        rw [state_announce] at hstate
        rcases hstate with hstate | hstate <;> cases hstate
      · intro hstate
        rw [state_announce] at hstate
        cases hstate
  | survived _ _ hbetter =>
      have hstops := proposal_stops hgoal hbetter
      refine ⟨?_, ?_, ?_⟩
      · rw [threshold_announce]
        exact Direction.not_past_of_stops hstops
      · intro hstate
        rw [state_announce] at hstate
        rw [threshold_announce]
        by_contra hreached
        have hverdict := verdict_eq_succeeded_iff.mpr (Bool.eq_true_of_not_eq_false hreached)
        rcases hstate with hstate | hstate <;> cases hverdict.symm.trans hstate
      · intro hstate
        rw [state_announce] at hstate
        rw [threshold_announce]
        refine hstops.resolve_right ?_
        rw [verdict_eq_succeeded_iff.mp hstate]
        decide

end Winners.Search

namespace Winners

open Search

/-- **The threshold stops at the goal** under each schedule that comes with the library, in any
number of steps without an error. It never passes the goal, it is before the goal while the search
runs and when it has stalled, and it equals the goal when the search has succeeded. -/
theorem threshold_stops_at_goal {τ μ ν π σ ω : Type} [Tracker τ μ ν]
    {setup : Setup τ μ ν π σ ω} (hschedule : setup.schedule.Shipped) {memory : π} {plan : σ}
    {report : ω} {fallbackSeed : UInt64} {factory : Factory τ} {s₀ s : Search τ π σ ω}
    (hstart : start setup memory plan report fallbackSeed factory = .ok s₀) {count : Nat}
    (hsteps : steps setup count s₀ = .ok s) :
    let d := setup.schedule.direction
    let goal := setup.schedule.goal
    d.improves s.threshold goal = false ∧
    (s.state = .running ∨ s.state = .stalled → d.reached s.threshold goal = false) ∧
    (s.state = .succeeded → s.threshold ≤ goal ∧ goal ≤ s.threshold) := by
  intro d goal
  have hgoal := hschedule.stopsAtGoal (validity_of_start hstart)
  have hunderway : Underway setup s₀ := (opened_of_start hstart).underway hgoal
  have h : Underway setup s :=
    steps_kept (fun hround hs => hround.underway hgoal hs) hunderway hsteps
  refine ⟨h.not_past, h.ahead, ?_⟩
  intro hstate
  rw [h.arrived hstate]
  exact ⟨⟨hgoal.goal, hgoal.goal, le_refl _⟩, ⟨hgoal.goal, hgoal.goal, le_refl _⟩⟩

/-- A quarter of the way from four down to zero in each round. -/
def quarterOfTheWay : FractionSchedule := ⟨.minimize, .zero, .ofRatio 1 4, some (.ofNat 4)⟩

/-- A path of three vertices in two colours is solved at once by a step of two conflicts. A quarter
of the way at a time the search still runs after two rounds. -/
theorem threshold_stops_at_goal_small :
    (∃ s₀ s, smallSearch .randomRecolor properColoring.schedule
        (Coloring.uniform (Graph.path 3) 2) = .ok s₀ ∧
      steps (smallSetup .randomRecolor properColoring.schedule) 1 s₀ = .ok s ∧
      s.state = .succeeded ∧ s.threshold ≤ Binary64.zero ∧ Binary64.zero ≤ s.threshold) ∧
    (∃ s₀ s, smallSearch .randomRecolor quarterOfTheWay.schedule
        (Coloring.uniform (Graph.path 3) 2) = .ok s₀ ∧
      steps (smallSetup .randomRecolor quarterOfTheWay.schedule) 2 s₀ = .ok s ∧
      s.state = .running ∧ Direction.minimize.reached s.threshold .zero = false) := by
  refine ⟨?_, ?_⟩
  · obtain ⟨s₀, s, hstart, hsteps, hstate⟩ := exists_steps_of_view
      (smallSetup .randomRecolor properColoring.schedule)
      (smallSearch .randomRecolor properColoring.schedule (Coloring.uniform (Graph.path 3) 2)) 1
      (·.state) .succeeded (by decide +kernel)
    obtain ⟨-, -, harrived⟩ := threshold_stops_at_goal (.fixedStep properColoring) hstart hsteps
    exact ⟨s₀, s, hstart, hsteps, hstate, harrived hstate⟩
  · obtain ⟨s₀, s, hstart, hsteps, hstate⟩ := exists_steps_of_view
      (smallSetup .randomRecolor quarterOfTheWay.schedule)
      (smallSearch .randomRecolor quarterOfTheWay.schedule (Coloring.uniform (Graph.path 3) 2)) 2
      (·.state) .running (by decide +kernel)
    obtain ⟨-, hahead, -⟩ := threshold_stops_at_goal (.fraction quarterOfTheWay) hstart hsteps
    exact ⟨s₀, s, hstart, hsteps, hstate, hahead (Or.inl hstate)⟩

end Winners
