import Winners.Search.Observer
import Winners.Threshold.Schedule

set_option autoImplicit false

/-! # Searches

A search keeps a population and a threshold. In each round every particle walks, the schedule
proposes a new threshold from the fitness it finds, the particles that fail it are culled and
copies of the others take their places. The search ends when a proposal is no improvement, when
no particle survives, or when the threshold reaches the goal.

What stays the same during a search is its `Setup`; the rest is its `Search` value, which `step`
takes to the next round. Since a search goes on only after its threshold has improved
(`room_lt_of_step`), `run` needs no bound on the number of rounds to end.
-/

namespace Winners

/-! ## Configuration -/

structure Config where
  /-- Number of particles at the end of every round that leaves survivors. -/
  population : Nat := 64
  /-- Number of walk steps of every particle in a round. -/
  walk : Nat := 64
  seed : Option UInt64 := none
  /-- Whether the walks of a round may run side by side; their outcome is the same. -/
  parallel : Bool := true
  /-- The round after which a run stops in any case. -/
  maxRounds : Option Nat := none

def Config.validate (c : Config) : Except Error Unit := do
  if c.population = 0 then throw (.invalid .noParticles)
  if c.maxRounds = some 0 then throw (.invalid .roundLimit)

/-- What a search is carried out with. -/
structure Setup (τ μ ν π σ ω : Type) where
  config : Config
  policy : Policy τ μ π
  schedule : Schedule σ
  observer : Observer τ μ ν ω

/-- A search between two rounds: `memory` is the policy's and `plan` the schedule's. -/
structure Search (τ π σ ω : Type) where
  population : Population τ
  bestSeen : τ
  draws : Draws
  memory : π
  plan : σ
  report : ω
  threshold : Binary64
  state : SearchState
  round : Nat
  history : Array Binary64

/-- The result of a search. -/
structure Outcome (τ : Type) where
  state : SearchState
  /-- The best particle of the last population. -/
  best : τ
  /-- The best particle after any round's walks, or at the start. -/
  bestSeen : τ
  rounds : Nat
  threshold : Binary64
  history : Array Binary64

def Outcome.succeeded {τ : Type} (o : Outcome τ) : Bool := o.state == .succeeded

namespace Search

variable {τ μ ν π σ ω : Type} [Tracker τ μ ν]

/-! ## The start -/

/-- A search before its first round. The initial particles are built from the stream of the
configured seed, or of `fallbackSeed` where none is configured. -/
def start (setup : Setup τ μ ν π σ ω) (memory : π) (plan : σ) (report : ω)
    (fallbackSeed : UInt64) (factory : Factory τ) : Except Error (Search τ π σ ω) := do
  setup.config.validate
  setup.schedule.validity
  let seed := setup.config.seed.getD fallbackSeed
  let (population, draws) ←
    (Population.create setup.config.population factory).run (.ofSeed (splitMix seed))
  let threshold := setup.schedule.initial
  match population.best setup.schedule.direction with
  | none => throw .emptyPopulation
  | some bestSeen =>
      let notice := .opened setup.config.population setup.config.walk seed threshold
      return {
        population, bestSeen, draws, memory, plan, threshold
        report := setup.observer.onNotice notice report
        state := .running
        round := 0
        history := #[] }

/-! ## Rounds -/

/-- Lets all particles walk. -/
def mix (setup : Setup τ μ ν π σ ω) (s : Search τ π σ ω) :
    Except Error Unit × Search τ π σ ω :=
  let (result, mixed) :=
    Population.mixAll setup.policy setup.observer.onMutation setup.config.walk
      ⟨s.population, s.memory, s.draws, s.report⟩
  (result, { s with
    population := mixed.population
    memory := mixed.memory
    draws := mixed.draws
    report := mixed.report })

/-- Remembers the best particle of the population if it is better than all before. -/
def recordBest (d : Direction) (s : Search τ π σ ω) : Search τ π σ ω :=
  match s.population.best d with
  | none => s
  | some best =>
      if d.improves (Tracker.fitness best) (Tracker.fitness s.bestSeen) then
        { s with bestSeen := best }
      else s

/-- Culls the population at the threshold and fills it up again. -/
def select (setup : Setup τ μ ν π σ ω) (s : Search τ π σ ω) :
    Except Error Unit × Search τ π σ ω :=
  let d := setup.schedule.direction
  match s.population.cull (d.passes · s.threshold) with
  | (.extinct, _) => (.ok (), { s with state := .exhausted })
  | (.survived survivors, population) =>
      match population.refill setup.config.population s.draws with
      | (.error e, population, draws) => (.error e, { s with population, draws })
      | (.ok _, population, draws) =>
          let state :=
            if d.reached s.threshold setup.schedule.goal then .succeeded else s.state
          let notice := .culled s.round s.threshold survivors
          (.ok (), { s with
            population, draws, state
            report := setup.observer.onNotice notice s.report })

/-- Adopts a proposed threshold, or stalls if it is no improvement. -/
def judge (setup : Setup τ μ ν π σ ω) (proposed : Binary64) (s : Search τ π σ ω) :
    Except Error Unit × Search τ π σ ω :=
  if setup.schedule.direction.improves proposed s.threshold then
    select setup { s with threshold := proposed, history := s.history.push proposed }
  else (.ok (), { s with state := .stalled })

/-- Shows the end of a round to the observer. -/
def announce (setup : Setup τ μ ν π σ ω) (proposed : Binary64) (s : Search τ π σ ω) :
    Search τ π σ ω :=
  let observer := setup.observer
  let report :=
    if observer.wantsSnapshots then
      observer.onRound (s.population.snapshot s.round s.threshold) s.report
    else s.report
  match s.state with
  | .stalled =>
      { s with report := observer.onNotice (.stalled s.round s.threshold proposed) report }
  | .exhausted =>
      { s with report := observer.onNotice (.exhausted s.round s.threshold) report }
  | _ => { s with report }

/-- The threshold that the schedule proposes after the walks, and the search that it is proposed
to. -/
def consult (setup : Setup τ μ ν π σ ω) (s : Search τ π σ ω) : Binary64 × Search τ π σ ω :=
  let s := s.recordBest setup.schedule.direction
  let (proposed, plan) := setup.schedule.propose s.threshold s.population.fitness s.plan
  (proposed, { s with plan })

/-- The part of a round after the walks. -/
def settle (setup : Setup τ μ ν π σ ω) (s : Search τ π σ ω) :
    Except Error SearchState × Search τ π σ ω :=
  let (proposed, s) := consult setup s
  match judge setup proposed s with
  | (.error e, s) => (.error e, s)
  | (.ok _, s) =>
      let s := announce setup proposed s
      (.ok s.state, s)

/-- One round, and the state after it. A search that has ended stays as it is. When a walk fails
the round ends there: its number counts and what the walks have done stays done. -/
def step (setup : Setup τ μ ν π σ ω) (s : Search τ π σ ω) :
    Except Error SearchState × Search τ π σ ω :=
  if s.state.isFinal then (.ok s.state, s)
  else
    match mix setup { s with round := s.round + 1 } with
    | (.error e, s) => (.error e, s)
    | (.ok _, s) => settle setup s

/-! ## Termination -/

@[simp] theorem threshold_mix (setup : Setup τ μ ν π σ ω) (s : Search τ π σ ω) :
    (mix setup s).2.threshold = s.threshold := rfl

@[simp] theorem threshold_recordBest (d : Direction) (s : Search τ π σ ω) :
    (s.recordBest d).threshold = s.threshold := by
  unfold recordBest
  split
  · rfl
  · split <;> rfl

@[simp] theorem threshold_consult (setup : Setup τ μ ν π σ ω) (s : Search τ π σ ω) :
    (consult setup s).2.threshold = s.threshold :=
  threshold_recordBest setup.schedule.direction s

@[simp] theorem threshold_select (setup : Setup τ μ ν π σ ω) (s : Search τ π σ ω) :
    (select setup s).2.threshold = s.threshold := by
  simp only [select]
  split
  · rfl
  · split <;> rfl

@[simp] theorem threshold_announce (setup : Setup τ μ ν π σ ω) (proposed : Binary64)
    (s : Search τ π σ ω) : (announce setup proposed s).threshold = s.threshold := by
  unfold announce
  split <;> rfl

@[simp] theorem state_announce (setup : Setup τ μ ν π σ ω) (proposed : Binary64)
    (s : Search τ π σ ω) : (announce setup proposed s).state = s.state := by
  unfold announce
  split <;> simp_all

/-- Judging a proposal ends the search or improves the threshold. -/
theorem judge_final_or_improves (setup : Setup τ μ ν π σ ω) (proposed : Binary64)
    (s : Search τ π σ ω) :
    (judge setup proposed s).2.state.isFinal ∨
      setup.schedule.direction.improves (judge setup proposed s).2.threshold s.threshold := by
  unfold judge
  split
  · right
    simpa
  · left
    rfl

theorem settle_final_or_improves {setup : Setup τ μ ν π σ ω} {s s' : Search τ π σ ω}
    {state : SearchState} (h : settle setup s = (.ok state, s')) :
    s'.state.isFinal ∨ setup.schedule.direction.improves s'.threshold s.threshold := by
  have hjudged := judge_final_or_improves setup (consult setup s).1 (consult setup s).2
  rw [threshold_consult] at hjudged
  unfold settle at h
  dsimp only at h
  split at h
  · cases h
  · next judged hjudge =>
      rw [hjudge] at hjudged
      cases h
      rwa [state_announce, threshold_announce]

/-- A step that ends without an error and without ending the search improves the threshold. -/
theorem step_final_or_improves {setup : Setup τ μ ν π σ ω} {s s' : Search τ π σ ω}
    {state : SearchState} (h : step setup s = (.ok state, s')) :
    s'.state.isFinal ∨ setup.schedule.direction.improves s'.threshold s.threshold := by
  unfold step at h
  split at h
  · next hfinal =>
      cases h
      exact .inl hfinal
  · split at h
    · cases h
    · next mixed hmix =>
        have hthreshold : mixed.threshold = s.threshold := by
          have hmixed := threshold_mix setup { s with round := s.round + 1 }
          rwa [hmix] at hmixed
        rw [← hthreshold]
        exact settle_final_or_improves h

/-- The room that is left for improvements; none once the search has ended. -/
def room (d : Direction) (s : Search τ π σ ω) : Nat :=
  if s.state.isFinal then 0 else d.room s.threshold + 1

theorem room_lt_of_step {setup : Setup τ μ ν π σ ω} {s s' : Search τ π σ ω}
    {state : SearchState} (h : step setup s = (.ok state, s')) (hs : s.state.isFinal = false) :
    s'.room setup.schedule.direction < s.room setup.schedule.direction := by
  unfold room
  rcases step_final_or_improves h with hfinal | himproves
  · simp [hs, hfinal]
  · have := Direction.room_lt_of_improves himproves
    simp only [hs, Bool.false_eq_true, if_false]
    split <;> omega

/-! ## Runs -/

/-- Whether a run stops here: the search has ended or its round limit is reached. -/
def stops (config : Config) (s : Search τ π σ ω) : Bool :=
  s.state.isFinal || config.maxRounds.any (· ≤ s.round)

theorem not_isFinal_of_not_stops {config : Config} {s : Search τ π σ ω}
    (h : ¬s.stops config) : s.state.isFinal = false := by
  simp_all [stops]

/-- Steps until the run stops or a step fails. -/
def proceed (setup : Setup τ μ ν π σ ω) (s : Search τ π σ ω) :
    Except Error Unit × Search τ π σ ω :=
  if hstops : s.stops setup.config then (.ok (), s)
  else
    match h : step setup s with
    | (.error e, s') => (.error e, s')
    | (.ok _, s') =>
        have := room_lt_of_step h (not_isFinal_of_not_stops hstops)
        proceed setup s'
termination_by s.room setup.schedule.direction

/-- The outcome of a search as it stands, and the accumulated reports. -/
def finish (setup : Setup τ μ ν π σ ω) (s : Search τ π σ ω) : Except Error (Outcome τ × ω) :=
  match s.population.best setup.schedule.direction with
  | none => .error .emptyPopulation
  | some best =>
      let notice := .finished s.state s.round s.threshold (Tracker.fitness best)
        (Tracker.fitness s.bestSeen)
      .ok ({
        state := s.state
        best
        bestSeen := s.bestSeen
        rounds := s.round
        threshold := s.threshold
        history := s.history }, setup.observer.onNotice notice s.report)

/-- Steps until the search ends or its round limit is reached, and gives the outcome. -/
def run (setup : Setup τ μ ν π σ ω) (s : Search τ π σ ω) : Except Error (Outcome τ × ω) :=
  match proceed setup s with
  | (.error e, _) => .error e
  | (.ok _, s) => finish setup s

end Search

end Winners
