import Winners.Proofs.Search.Course
import Winners.Proofs.Search.Solved
import Winners.Proofs.Walk.Legal

set_option autoImplicit false

/-! # Searches that cannot fail

Only two things can make a round fail: a walk whose move is refused, and survivors too many for the
population. Under a legal policy the first does not happen, and since walks and culls add no
particles the second does not happen to a full population (`Round.ok`). A round leaves the
population full (`Round.full`), so the same is true of all rounds that follow.

Vertex subsets can go wrong in one more way, since a vertex is removed from the array that holds it
at the position its slot names. That no such position is out of range is part of what `Arranged`
says, and this holds of every subset that a search comes across (`arranged_of_reached`).
-/

namespace Winners

namespace Population

variable {τ μ ν π ω : Type} [Tracker τ μ ν] {policy : Policy τ μ π}

theorem walkEach_of_legal (h : policy.Legal) (onMutation : Nat → μ → τ → ω → ω) (steps : Nat)
    {walkers : List (τ × UInt64)} : ∀ {slot : Nat} {memory : π} {report : ω},
      (walkEach policy onMutation steps slot walkers memory report).1 = .ok () := by
  induction walkers with
  | nil =>
      intro slot memory report
      rfl
  | cons walker rest ih =>
      intro slot memory report
      obtain ⟨made, walk, hmix⟩ := Walk.exists_mix h (onMutation slot) steps
        ⟨walker.1, memory, .ofSeed (splitMix walker.2), report⟩
      rw [walkEach, hmix]
      exact ih

theorem mixAll_of_legal (h : policy.Legal) (onMutation : Nat → μ → τ → ω → ω) (steps : Nat)
    (s : Mixing τ π ω) : (mixAll policy onMutation steps s).1 = .ok () :=
  walkEach_of_legal h onMutation steps

end Population

namespace Search

variable {τ μ ν π σ ω : Type} [Tracker τ μ ν] {setup : Setup τ μ ν π σ ω}

/-! ## Rounds -/

theorem walking_of_legal (hlegal : setup.policy.Legal) (s : Search τ π σ ω) :
    walking setup s = .ok () :=
  Population.mixAll_of_legal hlegal _ _ _

/-- The survivors of a full population are not too many. -/
theorem exists_filling {s : Search τ π σ ω} (h : Full setup s) (hsome : survivors setup s ≠ []) :
    ∃ filling, Population.replenish setup.config.population ⟨survivors setup s⟩ = .ok filling := by
  apply Population.exists_replenish hsome
  calc (survivors setup s).length
      ≤ (walked setup s).population.particles.length := List.length_filter_le _ _
    _ = setup.config.population := h.walked.length

/-- **A round of a full population under a legal policy does not fail.** -/
theorem Round.ok (hlegal : setup.policy.Legal) {s s' : Search τ π σ ω}
    {result : Except Error SearchState} (hround : Round setup s result s') (h : Full setup s) :
    ∃ state, result = .ok state := by
  cases hround with
  | ended => exact ⟨_, rfl⟩
  | failed _ hwalk =>
      rw [walking_of_legal hlegal] at hwalk
      cases hwalk
  | stalled => exact ⟨_, rfl⟩
  | extinct => exact ⟨_, rfl⟩
  | overfull _ _ _ hsome hfill =>
      obtain ⟨filling, hfilling⟩ := exists_filling h hsome
      rw [hfilling] at hfill
      cases hfill
  | survived => exact ⟨_, rfl⟩

/-- A full population stays full also when a walk fails. -/
theorem Round.stays_full {s s' : Search τ π σ ω}
    {result : Except Error SearchState} (hround : Round setup s result s') (h : Full setup s) :
    Full setup s' := by
  cases result with
  | ok state => exact hround.full h
  | error e =>
      cases hround with
      | failed => exact h.walked
      -- survivors of a full population are never too many
      | overfull _ _ _ hsome hfill =>
          obtain ⟨filling, hfilling⟩ := exists_filling h hsome
          rw [hfilling] at hfill
          cases hfill

theorem Reached.full {P : τ → Prop} {s : Search τ π σ ω} (h : Reached setup P s) :
    Full setup s := by
  induction h with
  | start _ h => exact (opened_of_start h).full
  | step _ ih => exact (round_step setup _).stays_full ih

theorem exists_step (hlegal : setup.policy.Legal) {s : Search τ π σ ω} (h : Full setup s) :
    ∃ state s', step setup s = (.ok state, s') ∧ Full setup s' := by
  have hround := round_step setup s
  obtain ⟨state, hresult⟩ := hround.ok hlegal h
  rw [hresult] at hround
  exact ⟨state, (step setup s).2, Prod.ext hresult rfl, hround.full h⟩

/-! ## Courses and runs -/

theorem exists_steps (hlegal : setup.policy.Legal) (count : Nat) :
    ∀ {s : Search τ π σ ω}, Full setup s → ∃ s', steps setup count s = .ok s' ∧ Full setup s' := by
  induction count with
  | zero =>
      intro s h
      exact ⟨s, rfl, h⟩
  | succ count ih =>
      intro s h
      obtain ⟨state, next, hstep, hnext⟩ := exists_step hlegal h
      obtain ⟨s', hsteps, hs'⟩ := ih hnext
      exact ⟨s', steps_succ_eq_ok.mpr ⟨state, next, hstep, hsteps⟩, hs'⟩

theorem exists_proceed (hlegal : setup.policy.Legal) (s : Search τ π σ ω) (h : Full setup s) :
    ∃ s', proceed setup s = (.ok (), s') ∧ Full setup s' := by
  induction s using proceed.induct setup with
  | case1 s hstops => exact ⟨s, proceed_of_stops hstops, h⟩
  | case2 s hstops e next hstep =>
      obtain ⟨state, s', hok, -⟩ := exists_step hlegal h
      rw [hstep] at hok
      cases hok
  | case3 s hstops state next hstep hroom ih =>
      obtain ⟨state', s', hok, hs'⟩ := exists_step hlegal h
      rw [hstep] at hok
      cases hok
      rw [proceed_of_step hstops hstep]
      exact ih hs'

theorem exists_finish {s : Search τ π σ ω} (h : Full setup s) :
    ∃ result, finish setup s = .ok result := by
  obtain ⟨best, -, hbest⟩ := Population.exists_best setup.schedule.direction h.nonempty
  rw [finish, hbest]
  exact ⟨_, rfl⟩

/-- **What cannot go wrong with a search.** Its population is not empty, its walks are not refused,
and their survivors, if there are any, can be filled up. It can make a step, it can give an
outcome, and it can be run to its end, where the population is not empty either. -/
structure Sound (setup : Setup τ μ ν π σ ω) (s : Search τ π σ ω) : Prop where
  nonempty : s.population.particles ≠ []
  walking : walking setup s = .ok ()
  filling : survivors setup s ≠ [] →
    ∃ filling, Population.replenish setup.config.population ⟨survivors setup s⟩ = .ok filling
  step : ∃ state next, step setup s = (.ok state, next)
  finish : ∃ result, finish setup s = .ok result
  proceed : ∃ last, proceed setup s = (.ok (), last) ∧ last.population.particles ≠ []
  run : ∃ result, run setup s = .ok result

theorem Full.sound (hlegal : setup.policy.Legal) {s : Search τ π σ ω} (h : Full setup s) :
    Sound setup s where
  nonempty := h.nonempty
  walking := walking_of_legal hlegal s
  filling := exists_filling h
  step := by
    obtain ⟨state, next, hstep, -⟩ := exists_step hlegal h
    exact ⟨state, next, hstep⟩
  finish := exists_finish h
  proceed := by
    obtain ⟨last, hproceed, hlast⟩ := exists_proceed hlegal s h
    exact ⟨last, hproceed, hlast.nonempty⟩
  run := by
    obtain ⟨last, hproceed, hlast⟩ := exists_proceed hlegal s h
    obtain ⟨result, hresult⟩ := exists_finish hlast
    exact ⟨result, by rw [Search.run, hproceed]; exact hresult⟩

/-- **No search of a setup fails.** Trackers accept all that its policy proposes, and a search that
is built can make any number of steps, from each of which on it is sound. -/
structure NeverFails (setup : Setup τ μ ν π σ ω) : Prop where
  legal : setup.policy.Legal
  course : ∀ {memory : π} {plan : σ} {report : ω} {fallbackSeed : UInt64} {factory : Factory τ}
    {s₀ : Search τ π σ ω}, start setup memory plan report fallbackSeed factory = .ok s₀ →
    ∀ count, ∃ s, steps setup count s₀ = .ok s ∧ Sound setup s

theorem neverFails_of_legal (hlegal : setup.policy.Legal) : NeverFails setup where
  legal := hlegal
  course := by
    intro memory plan report fallbackSeed factory s₀ hstart count
    have hfull : Full setup s₀ := (opened_of_start hstart).full
    obtain ⟨s, hsteps, hs⟩ := exists_steps hlegal count hfull
    exact ⟨s, hsteps, hs.sound hlegal⟩

/-- **Every subset of a search finds its vertices**, on any graph and under any policy, and so does
every subset that a walk makes of it, if those that are built do. -/
theorem arranged_of_reached {n : Nat} {G : Graph n} {setup : Setup (VertexSubset G) Nat Bool π σ ω}
    {s : Search (VertexSubset G) π σ ω} (h : Reached setup VertexSubset.Arranged s) :
    s.bestSeen.Arranged ∧
      ∀ S ∈ s.population.particles, ∀ moves, (Tracker.replay S moves).Arranged := by
  have hholds := h.trackers (VertexSubset.kept_arranged.keeps setup.policy)
  exact ⟨hholds.bestSeen, fun S hS => VertexSubset.kept_arranged.replay (hholds.particles S hS)⟩

end Search

open Search

/-- **A search with a policy that comes with the library cannot fail once it is built**, whatever
its schedule, observer, seed, factory, population and walk length. The arrays of its subsets stay in
order, so that no vertex is looked for where it is not. -/
theorem shipped_search_never_fails {π σ ω : Type} :
    (∀ {n : Nat} {G : Graph n} {setup : Setup (VertexSubset G) Nat Bool π σ ω},
      VertexSubset.Shipped setup.policy → NeverFails setup ∧
        ∀ {s : Search (VertexSubset G) π σ ω}, Reached setup VertexSubset.Arranged s →
          s.bestSeen.Arranged ∧
            ∀ S ∈ s.population.particles, ∀ moves, (Tracker.replay S moves).Arranged) ∧
    (∀ {n : Nat} {G : Graph n} {setup : Setup (Coloring G) Recolor Nat π σ ω},
      setup.policy = .randomRecolor → NeverFails setup) ∧
    (∀ {n m : Nat} {C : Code n m} {setup : Setup (Message C) Nat Bool π σ ω},
      setup.policy = .uniformFlip → NeverFails setup) := by
  refine ⟨?_, ?_, ?_⟩
  · intro n G setup hpolicy
    exact ⟨neverFails_of_legal hpolicy.legal, arranged_of_reached⟩
  · intro n G setup hpolicy
    exact neverFails_of_legal (hpolicy ▸ Policy.legal_randomRecolor)
  · intro n m C setup hpolicy
    exact neverFails_of_legal (hpolicy ▸ Policy.legal_uniformFlip_message)

/-- A search that is built can be run to its end. -/
theorem exists_run_of_built {τ μ ν π σ ω : Type} [Tracker τ μ ν] {setup : Setup τ μ ν π σ ω}
    (h : NeverFails setup) {memory : π} {plan : σ} {report : ω} {fallbackSeed : UInt64}
    {factory : Factory τ}
    (hbuilt : (start setup memory plan report fallbackSeed factory).isOk = true) :
    ∃ s₀ result, start setup memory plan report fallbackSeed factory = .ok s₀ ∧
      run setup s₀ = .ok result := by
  cases hstart : start setup memory plan report fallbackSeed factory with
  | error e =>
      rw [hstart] at hbuilt
      cases hbuilt
  | ok s₀ =>
      obtain ⟨s, hsteps, hs⟩ := h.course hstart 0
      cases hsteps
      obtain ⟨result, hresult⟩ := hs.run
      exact ⟨s₀, result, rfl, hresult⟩

theorem exists_small_run {τ μ ν : Type} [Tracker τ μ ν] {policy : Policy τ μ Unit}
    {schedule : Schedule Unit} (h : NeverFails (smallSetup policy schedule)) (made : Except Error τ)
    (hbuilt : (smallSearch policy schedule made).isOk = true) :
    ∃ s₀ result, smallSearch policy schedule made = .ok s₀ ∧
      run (smallSetup policy schedule) s₀ = .ok result :=
  exists_run_of_built h hbuilt

/-- Swaps on a path of which one vertex is a member, recolourings of the path, and flips of a
message. -/
theorem shipped_search_never_fails_small :
    (∃ s₀ result, smallSearch .swapWalk independentSet.schedule
        (VertexSubset.ofList (Graph.path 3) [1]) = .ok s₀ ∧
      run (smallSetup .swapWalk independentSet.schedule) s₀ = .ok result ∧
      s₀.bestSeen.Arranged) ∧
    (∃ s₀ result, smallSearch .randomRecolor properColoring.schedule
        (Coloring.uniform (Graph.path 3) 2) = .ok s₀ ∧
      run (smallSetup .randomRecolor properColoring.schedule) s₀ = .ok result) ∧
    (∃ s₀ result, smallSearch .uniformFlip codeword.schedule
        (Message.ofList overlappingChecks [true, false, false]) = .ok s₀ ∧
      run (smallSetup .uniformFlip codeword.schedule) s₀ = .ok result) := by
  obtain ⟨hsubset, hcoloring, hmessage⟩ := @shipped_search_never_fails Unit Unit Unit
  refine ⟨?_, exists_small_run (hcoloring rfl) _ (by decide +kernel),
    exists_small_run (hmessage rfl) _ (by decide +kernel)⟩
  obtain ⟨hsound, harranged⟩ :=
    @hsubset 3 (Graph.path 3) (smallSetup .swapWalk independentSet.schedule) .swapWalk
  obtain ⟨s₀, result, hstart, hrun⟩ :=
    exists_small_run hsound (VertexSubset.ofList (Graph.path 3) [1]) (by decide +kernel)
  have hmade : ∀ S, VertexSubset.ofList (Graph.path 3) [1] = .ok S → S.Arranged :=
    fun _ h => (VertexSubset.Fresh.ofList h).exact.sides
  exact ⟨s₀, result, hstart, hrun, (harranged (.start (Factory.copies_yields hmade) hstart)).1⟩

end Winners
