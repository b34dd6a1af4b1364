import Winners.Proofs.Search.Termination
import Winners.Proofs.Threshold.Median
import Winners.Proofs.Tracker.Fitness

set_option autoImplicit false

/-! # Searches that follow the median

A search whose schedule is the median without slack keeps at least half of its particles in every
round that adopts a threshold, and so it is never exhausted (`KeepsHalf`). This is a fact about each
single round: the schedule proposes from the fitness of the very particles that are culled. What is
asked of the trackers is that their fitness is a number and that the computed mean of two fitness
values lies between them. The trackers that come with the library have such a fitness.
-/

namespace Winners

/-- The median without slack. The zero may have either sign. -/
def Schedule.FollowsMedian {σ : Type} (schedule : Schedule σ) : Prop :=
  ∃ m : MedianSchedule, schedule = m.schedule ∧ m.slack.magnitude = 0

theorem MedianSchedule.followsMedian {σ : Type} (m : MedianSchedule)
    (hslack : m.slack.magnitude = 0) : (m.schedule (σ := σ)).FollowsMedian :=
  ⟨m, rfl, hslack⟩

namespace Search

variable {τ μ ν π σ ω : Type} [Tracker τ μ ν] {setup : Setup τ μ ν π σ ω} {s s' : Search τ π σ ω}
  {result : Except Error SearchState} {P : τ → Prop}

/-! ## What a round adopts -/

/-- The threshold that a round adopts is the one proposed. -/
theorem Round.adopts (hround : Round setup s result s') (hnew : s'.history ≠ s.history) :
    s'.threshold = (proposal setup s).1 := by
  cases hround with
  | ended => exact absurd rfl hnew
  | failed => exact absurd rfl hnew
  | stalled =>
      rw [history_announce] at hnew
      exact absurd rfl hnew
  | extinct => exact threshold_announce _ _ _
  | overfull => rfl
  | survived => exact threshold_announce _ _ _

/-- A proposal that improves the threshold is adopted. -/
theorem Round.history_of_better (hround : Round setup s result s') (hrunning : s.state = .running)
    (hwalk : walking setup s = .ok ())
    (hbetter : setup.schedule.direction.improves (proposal setup s).1 s.threshold = true) :
    s'.history = s.history.push (proposal setup s).1 := by
  cases hround with
  | ended hfinal =>
      rw [hrunning] at hfinal
      cases hfinal
  | failed _ herror =>
      rw [hwalk] at herror
      cases herror
  | stalled _ _ hworse =>
      rw [hbetter] at hworse
      cases hworse
  | extinct => exact history_announce _ _ _
  | overfull => rfl
  | survived => exact history_announce _ _ _

/-- A round exhausts a search only if nothing passes the proposal. -/
theorem Round.not_exhausted (hround : Round setup s result s') (h : s.state ≠ .exhausted)
    (hsome : survivors setup s ≠ []) : s'.state ≠ .exhausted := by
  cases hround with
  | ended => exact h
  | failed => exact h
  | stalled =>
      intro hstate
      rw [state_announce] at hstate
      cases hstate
  | extinct _ _ _ hnone => exact absurd hnone hsome
  | overfull => exact h
  | survived =>
      rw [state_announce]
      exact verdict_ne_exhausted s

/-! ## Half of the particles -/

theorem length_survivors (setup : Setup τ μ ν π σ ω) (s : Search τ π σ ω) :
    (survivors setup s).length = (walked setup s).population.fitness.countP
      (setup.schedule.direction.passes · (proposal setup s).1) := by
  rw [Population.fitness, List.countP_map, List.countP_eq_length_filter]
  rfl

/-- **Half of the particles survive** whatever the median proposes of their fitness. -/
theorem half_survives (hmedian : setup.schedule.FollowsMedian) (hfull : Full setup s)
    (hfitness : Averaging (· ∈ (walked setup s).population.fitness)) :
    (setup.config.population + 1) / 2 ≤ (survivors setup s).length := by
  obtain ⟨m, hschedule, hslack⟩ := hmedian
  have hlength : (walked setup s).population.fitness.length = setup.config.population := by
    rw [Population.fitness, List.length_map, hfull.walked.length]
  have hne : (walked setup s).population.fitness ≠ [] := by
    apply List.ne_nil_of_length_pos
    rw [hlength]
    exact hfull.pos
  have hhalf := m.half_passes_propose hslack hfitness hne s.threshold
  rw [hlength] at hhalf
  rw [length_survivors, proposal, hschedule]
  exact hhalf

/-- **A search that keeps half of its particles.** It is not exhausted, and running it does not
exhaust it. If its next step adopts a threshold, at least half of all the particles that have walked
pass it, rounded up, and the cull leaves these. -/
structure KeepsHalf (setup : Setup τ μ ν π σ ω) (s : Search τ π σ ω) : Prop where
  not_exhausted : s.state ≠ .exhausted
  run : ∀ {outcome : Outcome τ} {report : ω}, run setup s = .ok (outcome, report) →
    outcome.state ≠ .exhausted
  adopted : (step setup s).2.history ≠ s.history →
    let mixed := (walked setup s).population
    let keep := (setup.schedule.direction.passes · (step setup s).2.threshold)
    mixed.size = setup.config.population ∧
    (setup.config.population + 1) / 2 ≤ mixed.fitness.countP keep ∧
    ∃ kept, mixed.cull keep = (.survived (mixed.fitness.countP keep), kept)

theorem averaging_fitness (h : ∀ x, P x → (Tracker.fitness x).Moderate) :
    Averaging fun f => ∃ x : τ, P x ∧ Tracker.fitness x = f := by
  apply averaging_of_moderate
  rintro _ ⟨x, hx, rfl⟩
  exact h x hx

theorem Holds.averaging (hfitness : Averaging fun f => ∃ x : τ, P x ∧ Tracker.fitness x = f)
    (h : Holds P s) : Averaging (· ∈ s.population.fitness) := by
  have hmem : ∀ {f}, f ∈ s.population.fitness → ∃ x : τ, P x ∧ Tracker.fitness x = f := by
    intro f hf
    obtain ⟨x, hx, rfl⟩ := List.mem_map.mp hf
    exact ⟨x, h.particles x hx, rfl⟩
  exact ⟨fun hf => hfitness.not_nan (hmem hf), fun hf hg => hfitness.mean (hmem hf) (hmem hg)⟩

section

variable (hmedian : setup.schedule.FollowsMedian) (hP : Tracker.Kept P)
  (hfitness : Averaging fun f => ∃ x : τ, P x ∧ Tracker.fitness x = f)

include hmedian hP hfitness

theorem Reached.half_survives (h : Reached setup P s) :
    (setup.config.population + 1) / 2 ≤ (survivors setup s).length ∧ survivors setup s ≠ [] := by
  have hwalked : Holds P (walked setup s) := (h.trackers (hP.keeps _)).walked (hP.keeps _)
  have hlength := Search.half_survives hmedian h.full (hwalked.averaging hfitness)
  have hpos := h.full.pos
  exact ⟨hlength, List.ne_nil_of_length_pos (by omega)⟩

theorem Reached.not_exhausted (h : Reached setup P s) : s.state ≠ .exhausted := by
  induction h with
  | start _ h =>
      rw [(opened_of_start h).state]
      decide
  | step h ih =>
      exact (round_step setup _).not_exhausted ih (h.half_survives hmedian hP hfitness).2

theorem Reached.keepsHalf (h : Reached setup P s) : KeepsHalf setup s where
  not_exhausted := h.not_exhausted hmedian hP hfitness
  run := by
    intro outcome report hrun
    obtain ⟨last, hlast, hfinish⟩ := exists_of_run Reached.step h hrun
    rw [(finish_spec hfinish).2.2]
    exact hlast.not_exhausted hmedian hP hfitness
  adopted := by
    intro hnew
    obtain ⟨hlength, hsome⟩ := h.half_survives hmedian hP hfitness
    rw [length_survivors] at hlength
    rw [(round_step setup s).adopts hnew]
    refine ⟨h.full.walked.length, hlength, ⟨survivors setup s⟩, ?_⟩
    rw [← length_survivors]
    exact Population.cull_of_some hsome

end

end Search

open Search

/-- **A search that follows the median without slack keeps half of its particles** in each round
that adopts a threshold, and is never exhausted. This is so for all trackers whose fitness is a
number such that computed means of two lie between them, and the trackers that come with the library
have such a fitness. Steps that fail may be among those taken. The vertices of a graph are counted by
a 64-bit word, and the weights of a code add up to one. -/
theorem median_search_keeps_half {π σ ω : Type} :
    (∀ {τ μ ν : Type} [Tracker τ μ ν] {setup : Setup τ μ ν π σ ω} {P : τ → Prop}
      {s : Search τ π σ ω}, setup.schedule.FollowsMedian → Tracker.Kept P →
      Averaging (fun f => ∃ x : τ, P x ∧ Tracker.fitness x = f) → Reached setup P s →
      KeepsHalf setup s) ∧
    (∀ {n : Nat} {G : Graph n} {setup : Setup (Coloring G) Recolor Nat π σ ω}
      {s : Search (Coloring G) π σ ω}, G.Constructed → n < 2 ^ 64 →
      setup.schedule.FollowsMedian → Reached setup (Tracker.Reachable Coloring.Fresh) s →
      KeepsHalf setup s) ∧
    (∀ {n : Nat} {G : Graph n} {setup : Setup (VertexSubset G) Nat Bool π σ ω}
      {s : Search (VertexSubset G) π σ ω}, G.Constructed → n < 2 ^ 64 →
      setup.schedule.FollowsMedian → Reached setup (Tracker.Reachable VertexSubset.Fresh) s →
      KeepsHalf setup s) ∧
    (∀ {n m : Nat} {C : Code n m} {setup : Setup (Message C) Nat Bool π σ ω}
      {s : Search (Message C) π σ ω}, C.Constructed → C.totalWeight < 2 ^ 64 →
      setup.schedule.FollowsMedian → Reached setup (Tracker.Reachable Message.Fresh) s →
      KeepsHalf setup s) := by
  refine ⟨?_, ?_, ?_, ?_⟩
  · intro τ μ ν _ setup P s hmedian hP hfitness h
    exact h.keepsHalf hmedian hP hfitness
  · intro n G setup s hG hn hmedian h
    exact h.keepsHalf hmedian (Tracker.kept_reachable _)
      (averaging_fitness fun _ hx => Coloring.moderate_fitness hG.simple hn hx)
  · intro n G setup s hG hn hmedian h
    exact h.keepsHalf hmedian (Tracker.kept_reachable _)
      (averaging_fitness fun _ hx => VertexSubset.moderate_fitness hG.simple hn hx)
  · intro n m C setup s hC hweight hmedian h
    exact h.keepsHalf hmedian (Tracker.kept_reachable _)
      (averaging_fitness fun _ hx => Message.moderate_fitness hC.dual hweight hx)

/-- A small search of copies of a new tracker, from what is seen of it. -/
theorem exists_small_of_view {τ μ ν α : Type} [Tracker τ μ ν] (policy : Policy τ μ Unit)
    (schedule : Schedule Unit) {fresh : τ → Prop} (made : Except Error τ)
    (hmade : ∀ t, made = .ok t → fresh t) (view : Search τ Unit Unit Unit → α) (a : α)
    (h : ((smallSearch policy schedule made).map view).toOption = some a) :
    ∃ s₀, smallSearch policy schedule made = .ok s₀ ∧ view s₀ = a ∧
      Reached (smallSetup policy schedule) (Tracker.Reachable fresh) s₀ := by
  cases hstart : smallSearch policy schedule made with
  | error e =>
      rw [hstart] at h
      cases h
  | ok s₀ =>
      rw [hstart] at h
      exact ⟨s₀, rfl, Option.some.inj h,
        .start (Factory.copies_yields fun t ht => .of_start (hmade t ht)) hstart⟩

/-- From no threshold at all to the total weight of `overlappingChecks`. -/
def towardsCodeword : MedianSchedule := { direction := .maximize, goal := .ofInt 7 }

/-- From no threshold at all to a fitness of zero. -/
def towardsZero : MedianSchedule := { direction := .minimize, goal := .zero }

/-- The first walks of four messages lead to scores of five and three times seven. The median is
adopted and passed by three. Colourings and subsets of a path are not exhausted by their first
round. -/
theorem median_search_keeps_half_small :
    (∃ s₀, smallSearch .uniformFlip towardsCodeword.schedule
        (Message.ofList overlappingChecks [true, false, false]) = .ok s₀ ∧
      (step (smallSetup .uniformFlip towardsCodeword.schedule) s₀).2.history = #[.ofInt 7] ∧
      (walked (smallSetup .uniformFlip towardsCodeword.schedule) s₀).population.fitness.countP
        (Direction.maximize.passes · (.ofInt 7)) = 3 ∧
      KeepsHalf (smallSetup .uniformFlip towardsCodeword.schedule) s₀ ∧
      (step (smallSetup .uniformFlip towardsCodeword.schedule) s₀).2.state ≠ .exhausted) ∧
    (∃ s₀, smallSearch .randomRecolor towardsZero.schedule
        (Coloring.uniform (Graph.path 3) 2) = .ok s₀ ∧
      (step (smallSetup .randomRecolor towardsZero.schedule) s₀).2.state ≠ .exhausted) ∧
    (∃ s₀, smallSearch .uniformFlip towardsZero.schedule
        (VertexSubset.ofList (Graph.path 3) [0, 1]) = .ok s₀ ∧
      (step (smallSetup .uniformFlip towardsZero.schedule) s₀).2.state ≠ .exhausted) := by
  obtain ⟨hgeneral, hcoloring, hsubset, hmessage⟩ := @median_search_keeps_half Unit Unit Unit
  have hzero := towardsZero.followsMedian (σ := Unit) (by decide)
  have hcodeword := towardsCodeword.followsMedian (σ := Unit) (by decide)
  refine ⟨?_, ?_, ?_⟩
  · obtain ⟨s₀, hstart, hview, hreached⟩ := exists_small_of_view .uniformFlip
      towardsCodeword.schedule (Message.ofList overlappingChecks [true, false, false])
      (fun _ h => Message.Fresh.ofList h)
      (fun s => (walked (smallSetup .uniformFlip towardsCodeword.schedule) s).population.fitness)
      [.ofInt 5, .ofInt 7, .ofInt 7, .ofInt 7] (by decide +kernel)
    have hmedian : median [.ofInt 5, .ofInt 7, .ofInt 7, .ofInt 7] = some (.ofInt 7) := by
      rw [median, List.mergeSort_of_pairwise (by decide +kernel)]
      decide +kernel
    have hproposal : (proposal (smallSetup .uniformFlip towardsCodeword.schedule) s₀).1 =
        .ofInt 7 := by
      have hclamped : Direction.maximize.clampToGoal
          (Direction.maximize.advance (.ofInt 7) .zero) (.ofInt 7) = .ofInt 7 := by decide +kernel
      show towardsCodeword.propose _ (walked _ s₀).population.fitness = _
      rw [hview, MedianSchedule.propose, hmedian]
      exact hclamped
    have hbetter : Direction.maximize.improves
        (proposal (smallSetup .uniformFlip towardsCodeword.schedule) s₀).1 s₀.threshold = true := by
      rw [hproposal, (opened_of_start hstart).threshold]
      decide +kernel
    have hhistory := (round_step (smallSetup .uniformFlip towardsCodeword.schedule)
      s₀).history_of_better (opened_of_start hstart).state
      (walking_of_legal Policy.legal_uniformFlip_message s₀) hbetter
    rw [hproposal, (opened_of_start hstart).history] at hhistory
    have hfitness : Averaging fun f => ∃ x : Message overlappingChecks,
        Tracker.Reachable Message.Fresh x ∧ Tracker.fitness x = f :=
      averaging_fitness fun _ hx =>
        Message.moderate_fitness constructed_overlappingChecks.dual (by decide +kernel) hx
    refine ⟨s₀, hstart, hhistory, ?_, ?_, ?_⟩
    · rw [hview]
      decide +kernel
    · exact hgeneral hcodeword (Tracker.kept_reachable _) hfitness hreached
    · exact (hmessage constructed_overlappingChecks (by decide +kernel) hcodeword
        hreached.step).not_exhausted
  · obtain ⟨s₀, hstart, -, hreached⟩ := exists_small_of_view .randomRecolor towardsZero.schedule
      (Coloring.uniform (Graph.path 3) 2) (fun _ h => Coloring.Fresh.uniform h)
      (·.round) 0 (by decide +kernel)
    exact ⟨s₀, hstart, (hcoloring (.path 3) (by decide) hzero hreached.step).not_exhausted⟩
  · obtain ⟨s₀, hstart, -, hreached⟩ := exists_small_of_view .uniformFlip towardsZero.schedule
      (VertexSubset.ofList (Graph.path 3) [0, 1]) (fun _ h => VertexSubset.Fresh.ofList h)
      (·.round) 0 (by decide +kernel)
    exact ⟨s₀, hstart, (hsubset (.path 3) (by decide) hzero hreached.step).not_exhausted⟩

end Winners
