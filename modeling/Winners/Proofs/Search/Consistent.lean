import Winners.Proofs.Search.Course
import Winners.Proofs.Search.Solved
import Winners.Proofs.Threshold.Order

set_option autoImplicit false

/-! # What the fields of a search say about each other

`Consistent` ties the population, the thresholds, the count of rounds and the state of a search
together. A new search is consistent and a round without an error keeps it so
(`Round.consistent`), in each of the ways in which it can go. Nothing is asked of the policy, the
schedule or the fitness, which may also be a NaN. The result in plain terms is
`stepped_search_is_consistent`.
-/

namespace Winners.Search

variable {τ μ ν π σ ω : Type} [Tracker τ μ ν] {setup : Setup τ μ ν π σ ω}

/-- The thresholds of a search in the order of their adoption, with the first one in front. -/
def thresholds (setup : Setup τ μ ν π σ ω) (s : Search τ π σ ω) : List Binary64 :=
  setup.schedule.initial :: s.history.toList

/-- **The invariant of error-free steps.** -/
structure Consistent (setup : Setup τ μ ν π σ ω) (s : Search τ π σ ω) : Prop where
  full : Full setup s
  improving : (thresholds setup s).Pairwise fun old new =>
    setup.schedule.direction.improves new old = true
  current : (thresholds setup s).getLast? = some s.threshold
  rounds : s.state ≠ .stalled → s.history.size = s.round
  rounds_stalled : s.state = .stalled → s.history.size + 1 = s.round
  passing : 0 < s.round → s.state = .running ∨ s.state = .succeeded →
    ∀ x ∈ s.population.particles,
      setup.schedule.direction.passes (Tracker.fitness x) s.threshold = true
  failing : s.state = .exhausted → ∀ x ∈ s.population.particles,
    setup.schedule.direction.passes (Tracker.fitness x) s.threshold = false

/-! ## The start -/

theorem Opened.consistent {factory : Factory τ} {s : Search τ π σ ω}
    (h : Opened setup factory s) : Consistent setup s where
  full := h.full
  improving := by
    rw [thresholds, h.history]
    exact List.pairwise_singleton _ _
  current := by
    rw [thresholds, h.history, h.threshold]
    rfl
  rounds := by
    intro _
    rw [h.history, h.round]
    rfl
  rounds_stalled := by
    intro hstate
    rw [h.state] at hstate
    cases hstate
  passing := by
    intro hround
    rw [h.round] at hround
    exact absurd hround (Nat.lt_irrefl 0)
  failing := by
    intro hstate
    rw [h.state] at hstate
    cases hstate

/-! ## Rounds -/

theorem Consistent.announced {s : Search τ π σ ω} (h : Consistent setup s)
    (proposed : Binary64) : Consistent setup (announce setup proposed s) := by
  rw [announce_eq]
  exact ⟨⟨h.full.length, h.full.pos⟩, h.improving, h.current, h.rounds, h.rounds_stalled, h.passing,
    h.failing⟩

/-- A threshold that improves on the last one improves on all before. -/
theorem pairwise_improves_concat {d : Direction} {earlier : List Binary64} {last new : Binary64}
    (hlast : earlier.getLast? = some last) (hnew : d.improves new last = true)
    (h : earlier.Pairwise fun old new => d.improves new old = true) :
    (earlier ++ [new]).Pairwise fun old new => d.improves new old = true := by
  refine List.pairwise_append.mpr ⟨h, List.pairwise_singleton _ _, ?_⟩
  intro old hold new' hmem
  cases List.mem_singleton.mp hmem
  obtain ⟨front, rfl⟩ := List.getLast?_eq_some_iff.mp hlast
  rcases List.mem_append.mp hold with hfront | hold
  · have hlastold := (List.pairwise_append.mp h).2.2 old hfront last List.mem_cons_self
    exact Direction.improves_trans hnew hlastold
  · cases List.mem_singleton.mp hold
    exact hnew

theorem thresholds_adopted (s : Search τ π σ ω) :
    thresholds setup (adopted setup s) = thresholds setup s ++ [(proposal setup s).1] := by
  show setup.schedule.initial :: (s.history.push (proposal setup s).1).toList = _
  rw [Array.toList_push]
  rfl

theorem Consistent.improving_adopted {s : Search τ π σ ω} (h : Consistent setup s)
    (hbetter : setup.schedule.direction.improves (proposal setup s).1 s.threshold = true) :
    (thresholds setup (adopted setup s)).Pairwise fun old new =>
      setup.schedule.direction.improves new old = true := by
  rw [thresholds_adopted]
  exact pairwise_improves_concat h.current hbetter h.improving

theorem current_adopted (s : Search τ π σ ω) :
    (thresholds setup (adopted setup s)).getLast? = some (proposal setup s).1 := by
  rw [thresholds_adopted]
  exact List.getLast?_concat

theorem Consistent.rounds_adopted {s : Search τ π σ ω} (h : Consistent setup s)
    (hrunning : s.state = .running) : (adopted setup s).history.size = s.round + 1 := by
  have hsize : s.history.size = s.round := h.rounds (by rw [hrunning]; decide)
  show (s.history.push (proposal setup s).1).size = s.round + 1
  rw [Array.size_push, hsize]

/-- **A round without an error keeps a search consistent.** -/
theorem Round.consistent {s s' : Search τ π σ ω} {state : SearchState}
    (hround : Round setup s (.ok state) s') (h : Consistent setup s) : Consistent setup s' := by
  have hfull := hround.full h.full
  cases hround with
  | ended => exact h
  | stalled hrunning =>
      have hsize : s.history.size = s.round := h.rounds (by rw [hrunning]; decide)
      apply Consistent.announced
      exact {
        full := full_announce.mp hfull
        improving := h.improving
        current := h.current
        rounds := fun hstate => absurd rfl hstate
        rounds_stalled := fun _ => congrArg Nat.succ hsize
        passing := by
          rintro _ (hstate | hstate) <;> cases hstate
        failing := by
          intro hstate
          cases hstate }
  | extinct hrunning _ hbetter hnone =>
      apply Consistent.announced
      exact {
        full := full_announce.mp hfull
        improving := h.improving_adopted hbetter
        current := current_adopted s
        rounds := fun _ => h.rounds_adopted hrunning
        rounds_stalled := by
          intro hstate
          cases hstate
        passing := by
          rintro _ (hstate | hstate) <;> cases hstate
        failing := by
          intro _ x hx
          -- a particle that passed would be a survivor
          by_contra hpasses
          have hmem : x ∈ survivors setup s :=
            mem_survivors.mpr ⟨hx, Bool.eq_true_of_not_eq_false hpasses⟩
          rw [hnone] at hmem
          exact List.not_mem_nil hmem }
  | survived hrunning _ hbetter _ hfill =>
      apply Consistent.announced
      exact {
        full := full_announce.mp hfull
        improving := h.improving_adopted hbetter
        current := current_adopted s
        rounds := fun _ => h.rounds_adopted hrunning
        rounds_stalled := fun hstate => absurd hstate (verdict_ne_stalled s)
        passing := by
          intro _ _ x hx
          exact (mem_survivors.mp (Population.mem_of_mem_replenish hfill hx)).2
        failing := fun hstate => absurd hstate (verdict_ne_exhausted s) }

/-! ## Steps -/

/-- Rounds are counted up from the first step on, as long as the search has not ended before. -/
theorem Round.round_pos {s s' : Search τ π σ ω} {state : SearchState}
    (hround : Round setup s (.ok state) s') (h : s.state = .running ∨ 0 < s.round) :
    0 < s'.round := by
  cases hround with
  | ended hfinal =>
      rcases h with hrunning | hpos
      · rw [hrunning] at hfinal
        cases hfinal
      · exact hpos
  | stalled =>
      rw [round_announce]
      exact Nat.succ_pos s.round
  | extinct =>
      rw [round_announce]
      exact Nat.succ_pos s.round
  | survived =>
      rw [round_announce]
      exact Nat.succ_pos s.round

theorem round_pos_of_steps {count : Nat} {s s' : Search τ π σ ω} (hrunning : s.state = .running)
    (hcount : 0 < count) (h : steps setup count s = .ok s') : 0 < s'.round := by
  obtain ⟨count, rfl⟩ := Nat.exists_eq_succ_of_ne_zero hcount.ne'
  obtain ⟨state, next, hstep, hrest⟩ := steps_succ_eq_ok.mp h
  have hnext := (round_of_step hstep).round_pos (Or.inl hrunning)
  exact steps_kept (fun hround hpos => hround.round_pos (Or.inr hpos)) hnext hrest

end Winners.Search

namespace Winners

open Search

/-- **A search stays consistent over any number of steps without an error.** It has the configured
number of particles. Its thresholds, from the initial one on, improve strictly, and the last of
them is in force. It has adopted one in each round, but none in a round in which it stalled. From
the first step on all particles pass the threshold unless the search has stalled or is exhausted,
and when it is exhausted none does. Once it has ended a step leaves it as it is. -/
theorem stepped_search_is_consistent {τ μ ν π σ ω : Type} [Tracker τ μ ν]
    {setup : Setup τ μ ν π σ ω} {memory : π} {plan : σ} {report : ω} {fallbackSeed : UInt64}
    {factory : Factory τ} {s₀ s : Search τ π σ ω}
    (hstart : start setup memory plan report fallbackSeed factory = .ok s₀) {count : Nat}
    (hsteps : steps setup count s₀ = .ok s) :
    let d := setup.schedule.direction
    s.population.size = setup.config.population ∧
    (setup.schedule.initial :: s.history.toList).Pairwise
      (fun old new => d.improves new old = true) ∧
    (setup.schedule.initial :: s.history.toList).getLast? = some s.threshold ∧
    (s.state ≠ .stalled → s.history.size = s.round) ∧
    (s.state = .stalled → s.history.size + 1 = s.round) ∧
    (0 < count → s.state = .running ∨ s.state = .succeeded →
      ∀ x ∈ s.population.particles, d.passes (Tracker.fitness x) s.threshold = true) ∧
    (s.state = .exhausted →
      ∀ x ∈ s.population.particles, d.passes (Tracker.fitness x) s.threshold = false) ∧
    (s.state.isFinal = true → step setup s = (.ok s.state, s)) := by
  intro d
  have hopened := opened_of_start hstart
  have h : Consistent setup s :=
    steps_kept (fun hround hs => hround.consistent hs) hopened.consistent hsteps
  refine ⟨h.full.length, h.improving, h.current, h.rounds, h.rounds_stalled, ?_, h.failing, ?_⟩
  · intro hcount
    exact h.passing (round_pos_of_steps hopened.state hcount hsteps)
  · intro hfinal
    exact if_pos hfinal

/-- The thresholds five, three and two, and then no better one. -/
def fallingToTwo : Schedule Unit :=
  .memoryless .minimize .zero (some (.ofNat 5)) (.ok ()) fun current _ =>
    if current = .ofNat 5 then .ofNat 3 else .ofNat 2

/-- A path of three vertices in two colours has two conflicts at most, so the search stalls after it
has come down to two. -/
theorem stepped_search_is_consistent_falling :
    ∃ s₀ s, smallSearch .randomRecolor fallingToTwo (Coloring.uniform (Graph.path 3) 2) = .ok s₀ ∧
      steps (smallSetup .randomRecolor fallingToTwo) 3 s₀ = .ok s ∧ s.state = .stalled ∧
      s.population.size = 4 ∧
      (Binary64.ofNat 5 :: s.history.toList).Pairwise
        (fun old new => Direction.minimize.improves new old = true) ∧
      s.history.size + 1 = s.round ∧
      step (smallSetup .randomRecolor fallingToTwo) s = (.ok .stalled, s) := by
  obtain ⟨s₀, s, hstart, hsteps, hstate⟩ := exists_steps_of_view
    (smallSetup .randomRecolor fallingToTwo)
    (smallSearch .randomRecolor fallingToTwo (Coloring.uniform (Graph.path 3) 2)) 3 (·.state)
    .stalled (by decide +kernel)
  obtain ⟨hfull, himproving, -, -, hrounds, -, -, hended⟩ :=
    stepped_search_is_consistent hstart hsteps
  refine ⟨s₀, s, hstart, hsteps, hstate, hfull, himproving, hrounds hstate, ?_⟩
  rw [← hstate]
  exact hended (by rw [hstate]; rfl)

end Winners
