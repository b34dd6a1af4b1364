import Winners.Proofs.Search.Population
import Winners.Search.Basic

set_option autoImplicit false

/-! # What a step does

`Round` lists the ways in which a step can go, with what each of them leaves behind: the search
has ended before, a walk fails, the proposal is no improvement, no particle passes it, the
survivors are more than the population may have, or they fill the population up again.
`round_step` says that there is no other way, so what steps keep is shown by cases on it.
-/

namespace Winners.Search

variable {τ μ ν π σ ω : Type} [Tracker τ μ ν]

/-! ## The parts of a round -/

section

variable (setup : Setup τ μ ν π σ ω) (s : Search τ π σ ω)

/-- The search after the walks of its next round. -/
def walked : Search τ π σ ω := (mix setup { s with round := s.round + 1 }).2

/-- Whether these walks go well. -/
def walking : Except Error Unit := (mix setup { s with round := s.round + 1 }).1

/-- The search when the best particle after the walks is remembered. -/
def observed : Search τ π σ ω :=
  { walked setup s with
    bestSeen := ((walked setup s).recordBest setup.schedule.direction).bestSeen }

/-- The threshold that the schedule then proposes, and the schedule's memory. -/
def proposal : Binary64 × σ :=
  setup.schedule.propose s.threshold (walked setup s).population.fitness s.plan

/-- The search when the proposal is made. -/
def planned : Search τ π σ ω := { observed setup s with plan := (proposal setup s).2 }

/-- The search when the proposal is adopted. -/
def adopted : Search τ π σ ω :=
  { planned setup s with
    threshold := (proposal setup s).1
    history := s.history.push (proposal setup s).1 }

/-- The particles that pass the proposed threshold after the walks. -/
def survivors : List τ :=
  (walked setup s).population.passing fun f =>
    setup.schedule.direction.passes f (proposal setup s).1

/-- The state after a round with survivors. -/
def verdict : SearchState :=
  if setup.schedule.direction.reached (proposal setup s).1 setup.schedule.goal then .succeeded
  else .running

/-- **The ways a step can go**, with the result and the search after it. -/
inductive Round : Except Error SearchState → Search τ π σ ω → Prop
  | ended (hfinal : s.state.isFinal = true) : Round (.ok s.state) s
  | failed (hrunning : s.state = .running) {e : Error} (hwalk : walking setup s = .error e) :
      Round (.error e) (walked setup s)
  | stalled (hrunning : s.state = .running) (hwalk : walking setup s = .ok ())
      (hworse : setup.schedule.direction.improves (proposal setup s).1 s.threshold = false) :
      Round (.ok .stalled) (announce setup (proposal setup s).1
        { planned setup s with state := .stalled })
  | extinct (hrunning : s.state = .running) (hwalk : walking setup s = .ok ())
      (hbetter : setup.schedule.direction.improves (proposal setup s).1 s.threshold = true)
      (hnone : survivors setup s = []) :
      Round (.ok .exhausted)
        (announce setup (proposal setup s).1 { adopted setup s with state := .exhausted })
  | overfull (hrunning : s.state = .running) (hwalk : walking setup s = .ok ())
      (hbetter : setup.schedule.direction.improves (proposal setup s).1 s.threshold = true)
      (hsome : survivors setup s ≠ []) {e : Error}
      (hfill : Population.replenish setup.config.population ⟨survivors setup s⟩ = .error e) :
      Round (.error e) { adopted setup s with population := ⟨survivors setup s⟩ }
  | survived (hrunning : s.state = .running) (hwalk : walking setup s = .ok ())
      (hbetter : setup.schedule.direction.improves (proposal setup s).1 s.threshold = true)
      (hsome : survivors setup s ≠ []) {filling : Sampler (Population τ)}
      (hfill : Population.replenish setup.config.population ⟨survivors setup s⟩ = .ok filling) :
      Round (.ok (verdict setup s)) (announce setup (proposal setup s).1
        { adopted setup s with
          population := (filling.run (walked setup s).draws).1
          draws := (filling.run (walked setup s).draws).2
          state := verdict setup s
          report := setup.observer.onNotice
            (.culled (s.round + 1) (proposal setup s).1 (survivors setup s).length)
            (walked setup s).report })

end

/-! ## Steps are rounds -/

section

variable (setup : Setup τ μ ν π σ ω) {s : Search τ π σ ω}

theorem isFinal_eq_false_iff {state : SearchState} : state.isFinal = false ↔ state = .running := by
  cases state <;> decide

theorem mem_survivors {setup : Setup τ μ ν π σ ω} {x : τ} :
    x ∈ survivors setup s ↔ x ∈ (walked setup s).population.particles ∧
      setup.schedule.direction.passes (Tracker.fitness x) (proposal setup s).1 = true :=
  Population.mem_passing

theorem verdict_eq_succeeded_iff {setup : Setup τ μ ν π σ ω} :
    verdict setup s = .succeeded ↔
      setup.schedule.direction.reached (proposal setup s).1 setup.schedule.goal = true := by
  unfold verdict
  split
  · next h => simp [h]
  · next h => simp [h]

theorem verdict_ne_stalled {setup : Setup τ μ ν π σ ω} (s : Search τ π σ ω) :
    verdict setup s ≠ .stalled := by
  unfold verdict
  split <;> decide

theorem verdict_ne_exhausted {setup : Setup τ μ ν π σ ω} (s : Search τ π σ ω) :
    verdict setup s ≠ .exhausted := by
  unfold verdict
  split <;> decide

/-- Remembering the best particle changes nothing else. -/
theorem recordBest_eq (d : Direction) (s : Search τ π σ ω) :
    s.recordBest d = { s with bestSeen := (s.recordBest d).bestSeen } := by
  unfold recordBest
  split
  · rfl
  · split <;> rfl

/-- Announcing the end of a round changes the reports only. -/
theorem announce_eq (proposed : Binary64) (s : Search τ π σ ω) :
    announce setup proposed s = { s with report := (announce setup proposed s).report } := by
  unfold announce
  split <;> rfl

@[simp] theorem population_announce (proposed : Binary64) (s : Search τ π σ ω) :
    (announce setup proposed s).population = s.population := by
  rw [announce_eq]

@[simp] theorem bestSeen_announce (proposed : Binary64) (s : Search τ π σ ω) :
    (announce setup proposed s).bestSeen = s.bestSeen := by
  rw [announce_eq]

@[simp] theorem history_announce (proposed : Binary64) (s : Search τ π σ ω) :
    (announce setup proposed s).history = s.history := by
  rw [announce_eq]

@[simp] theorem round_announce (proposed : Binary64) (s : Search τ π σ ω) :
    (announce setup proposed s).round = s.round := by
  rw [announce_eq]

theorem judge_of_worse {proposed : Binary64}
    (h : setup.schedule.direction.improves proposed s.threshold = false) :
    judge setup proposed s = (.ok (), { s with state := .stalled }) := by
  rw [judge, h]
  rfl

theorem judge_of_better {proposed : Binary64}
    (h : setup.schedule.direction.improves proposed s.threshold = true) :
    judge setup proposed s =
      select setup { s with threshold := proposed, history := s.history.push proposed } := by
  rw [judge, h]
  rfl

theorem select_of_none
    (hnone : s.population.passing (setup.schedule.direction.passes · s.threshold) = []) :
    select setup s = (.ok (), { s with state := .exhausted }) := by
  unfold select
  dsimp only
  rw [Population.cull_of_none hnone]

/-- A selection with survivors fails as the filling up does. -/
theorem select_of_error
    (hsome : s.population.passing (setup.schedule.direction.passes · s.threshold) ≠ []) {e : Error}
    (hfill : Population.replenish setup.config.population
      ⟨s.population.passing (setup.schedule.direction.passes · s.threshold)⟩ = .error e) :
    select setup s = (.error e, { s with
      population := ⟨s.population.passing (setup.schedule.direction.passes · s.threshold)⟩ }) := by
  unfold select
  dsimp only
  rw [Population.cull_of_some hsome]
  simp only [Population.refill_of_replenish_error hfill]

theorem select_of_ok
    (hsome : s.population.passing (setup.schedule.direction.passes · s.threshold) ≠ [])
    {filling : Sampler (Population τ)}
    (hfill : Population.replenish setup.config.population
      ⟨s.population.passing (setup.schedule.direction.passes · s.threshold)⟩ = .ok filling) :
    select setup s = (.ok (), { s with
      population := (filling.run s.draws).1
      draws := (filling.run s.draws).2
      state :=
        if setup.schedule.direction.reached s.threshold setup.schedule.goal then .succeeded
        else s.state
      report := setup.observer.onNotice
        (.culled s.round s.threshold
          (s.population.passing (setup.schedule.direction.passes · s.threshold)).length)
        s.report }) := by
  unfold select
  dsimp only
  rw [Population.cull_of_some hsome]
  obtain ⟨copies, hrefill⟩ := Population.refill_of_replenish_ok hfill s.draws
  simp only [hrefill]

/-- The end of a round, when the proposal has been judged. -/
def concluded (proposed : Binary64) :
    Except Error Unit × Search τ π σ ω → Except Error SearchState × Search τ π σ ω
  | (.error e, s) => (.error e, s)
  | (.ok _, s) => (.ok (announce setup proposed s).state, announce setup proposed s)

theorem concluded_ok (proposed : Binary64) (s : Search τ π σ ω) :
    concluded setup proposed (.ok (), s) = (.ok s.state, announce setup proposed s) := by
  rw [concluded, state_announce]

theorem settle_eq_concluded (s : Search τ π σ ω) :
    settle setup s = concluded setup (consult setup s).1
      (judge setup (consult setup s).1 (consult setup s).2) :=
  rfl

theorem consult_walked (s : Search τ π σ ω) :
    consult setup (walked setup s) = ((proposal setup s).1, planned setup s) := by
  unfold consult
  rw [recordBest_eq]
  rfl

theorem settle_eq (s : Search τ π σ ω) :
    settle setup (walked setup s) = concluded setup (proposal setup s).1
      (judge setup (proposal setup s).1 (planned setup s)) := by
  rw [settle_eq_concluded, consult_walked]

/-- A round whose proposal improves the threshold ends as the selection does. -/
theorem round_select (hrunning : s.state = .running) (hwalk : walking setup s = .ok ())
    (hbetter : setup.schedule.direction.improves (proposal setup s).1 s.threshold = true)
    {judged : Except Error SearchState × Search τ π σ ω}
    (h : concluded setup (proposal setup s).1 (select setup (adopted setup s)) = judged) :
    Round setup s judged.1 judged.2 := by
  by_cases hsome : survivors setup s = []
  · rw [select_of_none setup (s := adopted setup s) hsome, concluded_ok] at h
    subst h
    exact .extinct hrunning hwalk hbetter hsome
  · cases hfill : Population.replenish setup.config.population ⟨survivors setup s⟩ with
    | error e =>
        rw [select_of_error setup (s := adopted setup s) hsome hfill, concluded] at h
        subst h
        exact .overfull hrunning hwalk hbetter hsome hfill
    | ok filling =>
        have hstate : (adopted setup s).state = .running := hrunning
        rw [select_of_ok setup (s := adopted setup s) hsome hfill, concluded_ok, hstate] at h
        subst h
        exact .survived hrunning hwalk hbetter hsome hfill

theorem round_settle (hrunning : s.state = .running) (hwalk : walking setup s = .ok ()) :
    Round setup s (settle setup (walked setup s)).1 (settle setup (walked setup s)).2 := by
  rw [settle_eq]
  cases hbetter : setup.schedule.direction.improves (proposal setup s).1 s.threshold with
  | false =>
      rw [judge_of_worse setup (s := planned setup s) hbetter, concluded_ok]
      exact .stalled hrunning hwalk hbetter
  | true =>
      rw [judge_of_better setup (s := planned setup s) hbetter]
      exact round_select setup hrunning hwalk hbetter rfl

theorem round_step (s : Search τ π σ ω) :
    Round setup s (step setup s).1 (step setup s).2 := by
  unfold step
  split
  · next hfinal => exact .ended hfinal
  · next hfinal =>
      have hrunning := isFinal_eq_false_iff.mp (Bool.eq_false_iff.mpr hfinal)
      split
      · next e s' hmix =>
          have h := Round.failed hrunning (e := e) (by rw [walking, hmix])
          rwa [walked, hmix] at h
      · next s' hmix =>
          have h := round_settle setup hrunning (by rw [walking, hmix])
          rwa [walked, hmix] at h

end

end Winners.Search
