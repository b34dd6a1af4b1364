import Winners.Proofs.Search.Round

set_option autoImplicit false

/-! # The searches that steps reach

`Reached` holds of a newly built search and is closed under steps, those that fail included. Two
things are true of every search reached. Its trackers have whatever the factory gives them and walk
steps keep (`Reached.trackers`). And if it has succeeded, its threshold is at the goal and all
of its particles pass it (`Reached.success`).
-/

namespace Winners.Search

variable {τ μ ν π σ ω : Type} [Tracker τ μ ν] {setup : Setup τ μ ν π σ ω} {P : τ → Prop}

/-- The searches that steps reach from those built with trackers that have a property. -/
inductive Reached (setup : Setup τ μ ν π σ ω) (P : τ → Prop) : Search τ π σ ω → Prop
  | start {memory : π} {plan : σ} {report : ω} {fallbackSeed : UInt64} {factory : Factory τ}
      {s : Search τ π σ ω} (hfactory : factory.Yields P)
      (h : start setup memory plan report fallbackSeed factory = .ok s) : Reached setup P s
  | step {s : Search τ π σ ω} (h : Reached setup P s) : Reached setup P (step setup s).2

/-! ## The start -/

/-- What a newly built search consists of. -/
structure Opened (setup : Setup τ μ ν π σ ω) (factory : Factory τ) (s : Search τ π σ ω) :
    Prop where
  created : ∃ draws, (Population.create setup.config.population factory).run draws =
    .ok (s.population, s.draws)
  best : s.population.best setup.schedule.direction = some s.bestSeen
  state : s.state = .running
  threshold : s.threshold = setup.schedule.initial
  round : s.round = 0
  history : s.history = #[]

/-- The population is created from the stream of the seed, and the search goes on with what is left
of it. -/
theorem created_of_start {memory : π} {plan : σ} {report : ω} {fallbackSeed : UInt64}
    {factory : Factory τ} {s : Search τ π σ ω}
    (h : start setup memory plan report fallbackSeed factory = .ok s) :
    (Population.create setup.config.population factory).run
        (.ofSeed (splitMix (setup.config.seed.getD fallbackSeed))) = .ok (s.population, s.draws) ∧
      Opened setup factory s := by
  obtain ⟨-, -, h⟩ := bind_eq_ok.mp h
  obtain ⟨-, -, h⟩ := bind_eq_ok.mp h
  obtain ⟨⟨population, draws⟩, hcreate, h⟩ := bind_eq_ok.mp h
  dsimp only at h
  split at h
  · cases h
  · next bestSeen hbest =>
      cases h
      exact ⟨hcreate, ⟨_, hcreate⟩, hbest, rfl, rfl, rfl, rfl⟩

theorem opened_of_start {memory : π} {plan : σ} {report : ω} {fallbackSeed : UInt64}
    {factory : Factory τ} {s : Search τ π σ ω}
    (h : start setup memory plan report fallbackSeed factory = .ok s) :
    Opened setup factory s :=
  (created_of_start h).2

/-- A search that is built has the configured number of particles, all from the factory, and has
not ended. -/
theorem start_spec {memory : π} {plan : σ} {report : ω} {fallbackSeed : UInt64}
    {factory : Factory τ} {s : Search τ π σ ω} (hfactory : factory.Yields P)
    (h : start setup memory plan report fallbackSeed factory = .ok s) :
    (∀ x ∈ s.population.particles, P x) ∧ s.population.particles.length = setup.config.population ∧
      s.bestSeen ∈ s.population.particles ∧ s.state = .running ∧
      s.threshold = setup.schedule.initial := by
  obtain ⟨⟨draws, hcreate⟩, hbest, hstate, hthreshold, -, -⟩ := opened_of_start h
  obtain ⟨hall, hlength, -⟩ := Population.create_spec hfactory hcreate
  exact ⟨hall, hlength, Population.mem_of_best hbest, hstate, hthreshold⟩

/-- With a factory that does not fail, only a configuration or a schedule can be refused. -/
theorem exists_start {factory : Factory τ} (hfactory : factory.Total)
    (hconfig : setup.config.validate = .ok ()) (hschedule : setup.schedule.validity = .ok ())
    (memory : π) (plan : σ) (report : ω) (fallbackSeed : UInt64) :
    ∃ s, start setup memory plan report fallbackSeed factory = .ok s := by
  have hpos : setup.config.population ≠ 0 := by
    intro hzero
    rw [Config.validate, if_pos hzero] at hconfig
    cases hconfig
  obtain ⟨⟨population, draws⟩, hcreate⟩ := Population.exists_create hfactory hpos
    (.ofSeed (splitMix (setup.config.seed.getD fallbackSeed)))
  obtain ⟨-, hlength, -⟩ :=
    Population.create_spec (P := fun _ => True) (fun _ _ _ _ _ => trivial) hcreate
  obtain ⟨best, -, hbest⟩ := Population.exists_best setup.schedule.direction
    (List.ne_nil_of_length_pos (hlength ▸ Nat.pos_of_ne_zero hpos))
  simp only [start, hconfig, hschedule, hcreate, hbest, bind, Except.bind]
  exact ⟨_, rfl⟩

/-! ## The trackers of a search -/

/-- All trackers that a search holds have a property. -/
structure Holds (P : τ → Prop) (s : Search τ π σ ω) : Prop where
  particles : ∀ x ∈ s.population.particles, P x
  bestSeen : P s.bestSeen

namespace Holds

variable {s : Search τ π σ ω}

theorem walked (hkeeps : setup.policy.Keeps P) (h : Holds P s) : Holds P (walked setup s) where
  particles := Population.mixAll_kept hkeeps setup.observer.onMutation setup.config.walk
    h.particles
  bestSeen := h.bestSeen

theorem recordBest (d : Direction) (h : Holds P s) : Holds P (s.recordBest d) := by
  unfold Search.recordBest
  split
  · exact h
  · next best hbest =>
      split
      · exact ⟨h.particles, h.particles best (Population.mem_of_best hbest)⟩
      · exact h

theorem announce (setup : Setup τ μ ν π σ ω) (proposed : Binary64) (h : Holds P s) :
    Holds P (announce setup proposed s) := by
  rw [announce_eq]
  exact ⟨h.particles, h.bestSeen⟩

/-- A selection leaves survivors and copies of them. -/
theorem select (setup : Setup τ μ ν π σ ω) (h : Holds P s) : Holds P (select setup s).2 := by
  have hsurvivors : ∀ x ∈ s.population.passing (setup.schedule.direction.passes · s.threshold),
      P x := fun x hx => h.particles x (Population.mem_passing.mp hx).1
  by_cases hsome : s.population.passing (setup.schedule.direction.passes · s.threshold) = []
  · rw [select_of_none setup hsome]
    exact ⟨h.particles, h.bestSeen⟩
  · cases hfill : Population.replenish setup.config.population
        ⟨s.population.passing (setup.schedule.direction.passes · s.threshold)⟩ with
    | error e =>
        rw [select_of_error setup hsome hfill]
        exact ⟨hsurvivors, h.bestSeen⟩
    | ok filling =>
        rw [select_of_ok setup hsome hfill]
        refine ⟨?_, h.bestSeen⟩
        intro x hx
        exact hsurvivors x (Population.mem_of_mem_replenish hfill hx)

theorem judge (setup : Setup τ μ ν π σ ω) (proposed : Binary64) (h : Holds P s) :
    Holds P (judge setup proposed s).2 := by
  cases hbetter : setup.schedule.direction.improves proposed s.threshold with
  | false =>
      rw [judge_of_worse setup hbetter]
      exact ⟨h.particles, h.bestSeen⟩
  | true =>
      rw [judge_of_better setup hbetter]
      exact select setup ⟨h.particles, h.bestSeen⟩

theorem concluded (setup : Setup τ μ ν π σ ω) (proposed : Binary64)
    {judged : Except Error Unit × Search τ π σ ω} (h : Holds P judged.2) :
    Holds P (concluded setup proposed judged).2 := by
  obtain ⟨result, s⟩ := judged
  cases result with
  | error e => exact h
  | ok _ => exact announce setup proposed h

/-- **What follows the walks of a round brings in no other trackers.** -/
theorem settle (setup : Setup τ μ ν π σ ω) (h : Holds P s) : Holds P (settle setup s).2 := by
  have hbest : Holds P (s.recordBest setup.schedule.direction) := h.recordBest _
  exact concluded setup _ (judge setup _ ⟨hbest.particles, hbest.bestSeen⟩)

/-- **Steps keep what walk steps keep.** -/
theorem step (hkeeps : setup.policy.Keeps P) (h : Holds P s) : Holds P (step setup s).2 := by
  have hwalked := h.walked hkeeps
  unfold Search.walked at hwalked
  unfold Search.step
  split
  · exact h
  · split
    · next hmix =>
        rw [hmix] at hwalked
        exact hwalked
    · next hmix =>
        rw [hmix] at hwalked
        exact settle setup hwalked

end Holds

theorem Reached.trackers (hkeeps : setup.policy.Keeps P) {s : Search τ π σ ω}
    (h : Reached setup P s) : Holds P s := by
  induction h with
  | start hfactory h =>
      obtain ⟨hall, -, hbestSeen, -, -⟩ := start_spec hfactory h
      exact ⟨hall, hall _ hbestSeen⟩
  | step _ ih => exact ih.step hkeeps

/-! ## Outcomes -/

/-- What an outcome takes from the search. -/
theorem outcome_of_finish {s : Search τ π σ ω} {outcome : Outcome τ} {report : ω}
    (h : finish setup s = .ok (outcome, report)) :
    s.population.best setup.schedule.direction = some outcome.best ∧
      outcome = ⟨s.state, outcome.best, s.bestSeen, s.round, s.threshold, s.history⟩ := by
  unfold finish at h
  split at h
  · cases h
  · next best hbest =>
      cases h
      exact ⟨hbest, rfl⟩

theorem finish_spec {s : Search τ π σ ω} {outcome : Outcome τ} {report : ω}
    (h : finish setup s = .ok (outcome, report)) :
    outcome.best ∈ s.population.particles ∧ outcome.bestSeen = s.bestSeen ∧
      outcome.state = s.state := by
  obtain ⟨hbest, houtcome⟩ := outcome_of_finish h
  exact ⟨Population.mem_of_best hbest, congrArg Outcome.bestSeen houtcome,
    congrArg Outcome.state houtcome⟩

theorem Holds.outcome {s : Search τ π σ ω} (hs : Holds P s) {outcome : Outcome τ} {report : ω}
    (h : finish setup s = .ok (outcome, report)) : P outcome.best ∧ P outcome.bestSeen := by
  obtain ⟨hbest, hbestSeen, -⟩ := finish_spec h
  exact ⟨hs.particles _ hbest, hbestSeen ▸ hs.bestSeen⟩

/-! ## Success -/

/-- **What success means.** There are particles, the threshold is at the goal, and every particle
passes it. -/
structure Success (setup : Setup τ μ ν π σ ω) (s : Search τ π σ ω) : Prop where
  nonempty : s.population.particles ≠ []
  reached : setup.schedule.direction.reached s.threshold setup.schedule.goal = true
  passes : ∀ x ∈ s.population.particles,
    setup.schedule.direction.passes (Tracker.fitness x) s.threshold = true

/-- A round that ends in success leaves survivors of the threshold it has adopted, and copies of
them. -/
theorem Round.success {s s' : Search τ π σ ω} {result : Except Error SearchState}
    (hround : Round setup s result s') (h : s.state = .succeeded → Success setup s)
    (hs : s'.state = .succeeded) : Success setup s' := by
  cases hround with
  | ended => exact h hs
  | failed hrunning =>
      -- a failed walk leaves the state, which was not final
      have hstate : s.state = .succeeded := hs
      rw [hrunning] at hstate
      cases hstate
  | stalled =>
      rw [state_announce] at hs
      cases hs
  | extinct =>
      rw [state_announce] at hs
      cases hs
  | overfull hrunning =>
      have hstate : s.state = .succeeded := hs
      rw [hrunning] at hstate
      cases hstate
  | survived _ _ _ hsome hfill =>
      rw [state_announce] at hs
      obtain ⟨copies, hparticles, -⟩ :=
        Population.replenish_spec hfill (Search.walked setup s).draws
      refine ⟨?_, ?_, ?_⟩
      · rw [population_announce, hparticles]
        exact fun hnil => hsome (List.append_eq_nil_iff.mp hnil).1
      · rw [threshold_announce]
        exact verdict_eq_succeeded_iff.mp hs
      · intro x hx
        rw [population_announce] at hx
        rw [threshold_announce]
        exact (mem_survivors.mp (Population.mem_of_mem_replenish hfill hx)).2

theorem Reached.success {s : Search τ π σ ω} (h : Reached setup P s)
    (hs : s.state = .succeeded) : Success setup s := by
  induction h with
  | start hfactory h =>
      obtain ⟨-, -, -, hrunning, -⟩ := start_spec hfactory h
      rw [hrunning] at hs
      cases hs
  | step _ ih => exact (round_step setup _).success ih hs

end Winners.Search
