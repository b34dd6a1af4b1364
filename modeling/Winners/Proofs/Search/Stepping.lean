import Winners.Proofs.Search.BestSeen
import Winners.Proofs.Search.Goal
import Winners.Proofs.Search.Termination

set_option autoImplicit false

/-! # Runs by hand

A run makes steps until the search has ended or its round limit is reached. Whoever steps by hand
and stops there gets to the same search (`Goes.proceed`). A run can also be handed a search with
which somebody has made some steps before. As long as these have not crossed the limit, they are
steps that the run would have made, or steps of a search that has ended, which are none
(`exists_goes_of_steps`). So it makes no difference where the run has taken over
(`run_is_bounded_stepping`).
-/

namespace Winners.Search

variable {τ μ ν π σ ω : Type} [Tracker τ μ ν] {setup : Setup τ μ ν π σ ω}

/-! ## Where a run stops -/

/-- The round limit stops a search that would go on without one. -/
def StoppedByLimit (config : Config) (s : Search τ π σ ω) : Prop :=
  s.stops config = true ∧ s.stops { config with maxRounds := none } = false

omit [Tracker τ μ ν] in
/-- Only the limit stops a search that still runs. -/
theorem running_iff_stoppedByLimit {config : Config} {s : Search τ π σ ω}
    (h : s.stops config = true) : s.state = .running ↔ StoppedByLimit config s := by
  rw [StoppedByLimit, stops_eq_false_iff]
  constructor
  · intro hrunning
    exact ⟨h, hrunning, fun limit hnone => nomatch hnone⟩
  · rintro ⟨-, hrunning, -⟩
    exact hrunning

omit [Tracker τ μ ν] in
theorem StoppedByLimit.exists_limit {config : Config} {s : Search τ π σ ω}
    (h : StoppedByLimit config s) :
    ∃ limit, config.maxRounds = some limit ∧ limit ≤ s.round := by
  by_contra hnone
  have hgoes : s.stops config = false := by
    refine stops_eq_false_iff.mpr ⟨(stops_eq_false_iff.mp h.2).1, ?_⟩
    intro limit hlimit
    by_contra hreached
    exact hnone ⟨limit, hlimit, Nat.le_of_not_lt hreached⟩
  rw [h.1] at hgoes
  cases hgoes

/-! ## Steps by hand -/

/-- **Steps by hand that a run would make**: a number of steps without an error, each of a search
at which the run would not stop. -/
structure Goes (setup : Setup τ μ ν π σ ω) (s : Search τ π σ ω) (count : Nat)
    (last : Search τ π σ ω) : Prop where
  steps : steps setup count s = .ok last
  goes : ∀ {before mid}, before < count → Search.steps setup before s = .ok mid →
    mid.stops setup.config = false

namespace Goes

theorem zero_iff {s last : Search τ π σ ω} : Goes setup s 0 last ↔ last = s := by
  constructor
  · intro h
    exact (Except.ok.inj h.steps).symm
  · rintro rfl
    exact ⟨rfl, fun hbefore => absurd hbefore (Nat.not_lt_zero _)⟩

theorem succ_iff {s last : Search τ π σ ω} {count : Nat} :
    Goes setup s (count + 1) last ↔ s.stops setup.config = false ∧
      ∃ state next, step setup s = (.ok state, next) ∧ Goes setup next count last := by
  constructor
  · intro h
    obtain ⟨state, next, hstep, hrest⟩ := steps_succ_eq_ok.mp h.steps
    refine ⟨h.goes (Nat.succ_pos count) rfl, state, next, hstep, hrest, ?_⟩
    intro before mid hbefore hmid
    exact h.goes (Nat.succ_lt_succ hbefore) (steps_succ_eq_ok.mpr ⟨state, next, hstep, hmid⟩)
  · rintro ⟨hgoes, state, next, hstep, hrest⟩
    refine ⟨steps_succ_eq_ok.mpr ⟨state, next, hstep, hrest.steps⟩, ?_⟩
    intro before mid hbefore hmid
    cases before with
    | zero =>
        cases hmid
        exact hgoes
    | succ before =>
        obtain ⟨state', next', hstep', hmid⟩ := steps_succ_eq_ok.mp hmid
        rw [hstep] at hstep'
        cases hstep'
        exact hrest.goes (Nat.lt_of_succ_lt_succ hbefore) hmid

/-- **A run goes through them.** -/
theorem proceed {count : Nat} : ∀ {s last : Search τ π σ ω}, Goes setup s count last →
    proceed setup s = proceed setup last := by
  induction count with
  | zero =>
      intro s last h
      rw [zero_iff.mp h]
  | succ count ih =>
      intro s last h
      obtain ⟨hgoes, state, next, hstep, hrest⟩ := succ_iff.mp h
      rw [proceed_of_step (ne_true_of_eq_false hgoes) hstep, ih hrest]

/-- Each of them is a round. -/
theorem round_eq {count : Nat} : ∀ {s last : Search τ π σ ω}, Goes setup s count last →
    last.round = s.round + count := by
  induction count with
  | zero =>
      intro s last h
      rw [zero_iff.mp h, Nat.add_zero]
  | succ count ih =>
      intro s last h
      obtain ⟨hgoes, state, next, hstep, hrest⟩ := succ_iff.mp h
      rw [ih hrest, (round_of_step hstep).round_succ (stops_eq_false_iff.mp hgoes).1]
      omega

/-- They do not cross the limit, unless it has been crossed before. -/
theorem round_le {count limit : Nat} (hlimit : setup.config.maxRounds = some limit) :
    ∀ {s last : Search τ π σ ω}, Goes setup s count last → last.round ≤ max limit s.round := by
  induction count with
  | zero =>
      intro s last h
      rw [zero_iff.mp h]
      exact Nat.le_max_right limit s.round
  | succ count ih =>
      intro s last h
      obtain ⟨hgoes, state, next, hstep, hrest⟩ := succ_iff.mp h
      obtain ⟨hrunning, hbelow⟩ := stops_eq_false_iff.mp hgoes
      have hnext := (round_of_step hstep).round_succ hrunning
      have hround := hbelow limit hlimit
      calc last.round
          ≤ max limit next.round := ih hrest
        _ = limit := by omega
        _ ≤ max limit s.round := Nat.le_max_left limit s.round

theorem full {s last : Search τ π σ ω} {count : Nat} (h : Goes setup s count last)
    (hs : Full setup s) : Full setup last :=
  steps_kept (fun hround hfull => hround.full hfull) hs h.steps

end Goes

theorem Runs.exists_goes {s : Search τ π σ ω} {made : Nat}
    {result : Except Error Unit × Search τ π σ ω} (h : Runs setup s made result) :
    ∃ count last, Goes setup s count last ∧ (last.stops setup.config = true ∨
      last.stops setup.config = false ∧ ∃ e, (step setup last).1 = .error e) := by
  induction h with
  | @stopped s hstops => exact ⟨0, s, Goes.zero_iff.mpr rfl, Or.inl hstops⟩
  | @failed s s' e hgoes hstep =>
      exact ⟨0, s, Goes.zero_iff.mpr rfl,
        Or.inr ⟨Bool.eq_false_iff.mpr hgoes, e, congrArg Prod.fst hstep⟩⟩
  | @stepped s s' state made result hgoes hstep _ ih =>
      obtain ⟨count, last, hrest, hends⟩ := ih
      exact ⟨count + 1, last,
        Goes.succ_iff.mpr ⟨Bool.eq_false_iff.mpr hgoes, state, s', hstep, hrest⟩, hends⟩

/-! ## Steps before a run -/

theorem round_le_of_steps {s s' : Search τ π σ ω} {count : Nat}
    (h : steps setup count s = .ok s') : s.round ≤ s'.round := by
  refine steps_kept (Q := fun next => s.round ≤ next.round) ?_ (Nat.le_refl _) h
  intro next next' state hround hle
  cases hfinal : next.state.isFinal with
  | true => rwa [hround.eq_of_final hfinal]
  | false =>
      rw [hround.round_succ (isFinal_eq_false_iff.mp hfinal)]
      exact Nat.le_succ_of_le hle

/-- **Steps that do not cross the limit are steps that a run would make**, those of a search that
has ended apart. They change nothing. -/
theorem exists_goes_of_steps {count : Nat} : ∀ {s s' : Search τ π σ ω},
    steps setup count s = .ok s' →
    (∀ limit, setup.config.maxRounds = some limit → s'.round ≤ max limit s.round) →
    ∃ made, Goes setup s made s' := by
  induction count with
  | zero =>
      intro s s' h _
      exact ⟨0, Goes.zero_iff.mpr (Except.ok.inj h).symm⟩
  | succ count ih =>
      intro s s' h hlimit
      obtain ⟨state, next, hstep, hrest⟩ := steps_succ_eq_ok.mp h
      cases hfinal : s.state.isFinal with
      | true =>
          -- the step has changed nothing, so the run need not make it
          obtain rfl := (round_of_step hstep).eq_of_final hfinal
          exact ih hrest hlimit
      | false =>
          have hrunning := isFinal_eq_false_iff.mp hfinal
          have hnext := (round_of_step hstep).round_succ hrunning
          have hle := round_le_of_steps hrest
          -- rounds only add up, so a step made at the limit would show in the end
          have hgoes : s.stops setup.config = false := by
            refine stops_eq_false_iff.mpr ⟨hrunning, ?_⟩
            intro limit hsome
            have hround := hlimit limit hsome
            omega
          obtain ⟨made, hmade⟩ := ih hrest fun limit hsome => by
            have hround := hlimit limit hsome
            omega
          exact ⟨made + 1, Goes.succ_iff.mpr ⟨hgoes, state, next, hstep, hmade⟩⟩

/-! ## The outcome -/

/-- **What the round limit means for an outcome** of a run that began after `before` rounds and
stopped at the search `last`. -/
structure EndsWithin (config : Config) (before : Nat) (last : Search τ π σ ω)
    (outcome : Outcome τ) : Prop where
  running_iff : outcome.state = .running ↔ StoppedByLimit config last
  limit_le : outcome.state = .running →
    ∃ limit, config.maxRounds = some limit ∧ limit ≤ outcome.rounds
  rounds_le : ∀ limit, config.maxRounds = some limit → outcome.rounds ≤ max limit before

theorem Goes.run_of_stops {s last : Search τ π σ ω} {count : Nat} (h : Goes setup s count last)
    (hstops : last.stops setup.config = true) : run setup s = finish setup last := by
  rw [run, h.proceed, proceed_of_stops hstops]

theorem Goes.run_of_failed {s last : Search τ π σ ω} {count : Nat} {e : Error}
    (h : Goes setup s count last) (hgoes : last.stops setup.config = false)
    (hfailed : (step setup last).1 = .error e) : run setup s = .error e := by
  rw [run, h.proceed, proceed_of_failed (ne_true_of_eq_false hgoes) (Prod.ext hfailed rfl)]

theorem Goes.endsWithin {s last : Search τ π σ ω} {count : Nat} (h : Goes setup s count last)
    (hstops : last.stops setup.config = true) {outcome : Outcome τ} {report : ω}
    (hfinish : finish setup last = .ok (outcome, report)) :
    EndsWithin setup.config s.round last outcome := by
  obtain ⟨-, houtcome⟩ := outcome_of_finish hfinish
  have hstate : outcome.state = last.state := congrArg Outcome.state houtcome
  have hrounds : outcome.rounds = last.round := congrArg Outcome.rounds houtcome
  have hiff := running_iff_stoppedByLimit hstops
  refine ⟨hstate ▸ hiff, ?_, ?_⟩
  · intro hrunning
    rw [hrounds]
    exact (hiff.mp (hstate ▸ hrunning)).exists_limit
  · intro limit hlimit
    rw [hrounds]
    exact h.round_le hlimit

end Winners.Search

namespace Winners

open Search

/-- **A run is stepping by hand up to the limit**, from any search that steps can reach, failed ones
included. Steps by hand lead to a search at which the run stops, because the search has ended or its
round limit is reached, or to a step that fails. In the first case the run has the outcome of that
search, which still runs just when it is the limit that has stopped it; in the second case it has
that error. Nor does it matter who makes the steps: after any number of steps without an error that
have not crossed the limit a run ends as it would have before them. -/
theorem run_is_bounded_stepping {τ μ ν π σ ω : Type} [Tracker τ μ ν] {setup : Setup τ μ ν π σ ω}
    {P : τ → Prop} {s : Search τ π σ ω} (hs : Reached setup P s) :
    (∃ count last, Goes setup s count last ∧ (last.stops setup.config = true ∨
      last.stops setup.config = false ∧ ∃ e, (step setup last).1 = .error e)) ∧
    (∀ {count last}, Goes setup s count last → last.stops setup.config = true →
      ∃ outcome report, finish setup last = .ok (outcome, report) ∧
        run setup s = .ok (outcome, report) ∧
        EndsWithin setup.config s.round last outcome) ∧
    (∀ {count last e}, Goes setup s count last → last.stops setup.config = false →
      (step setup last).1 = .error e → run setup s = .error e) ∧
    ∀ {count s'}, steps setup count s = .ok s' →
      (∀ limit, setup.config.maxRounds = some limit → s'.round ≤ max limit s.round) →
      run setup s' = run setup s := by
  obtain ⟨made, -, hruns⟩ := exists_runs setup s
  refine ⟨hruns.exists_goes, ?_, fun hmade => hmade.run_of_failed, ?_⟩
  · intro count last hmade hstops
    obtain ⟨outcome, report, hfinish, -, -⟩ := exists_outcome (hmade.full hs.full)
    refine ⟨outcome, report, hfinish, ?_, hmade.endsWithin hstops hfinish⟩
    rw [hmade.run_of_stops hstops, hfinish]
  · intro count s' hsteps hlimit
    obtain ⟨made, hmade⟩ := exists_goes_of_steps hsteps hlimit
    rw [run, run, hmade.proceed]

/-- A search of four colourings that takes at most two rounds at a quarter of the way each. -/
def twoRounds : Setup (Coloring (Graph.path 3)) Recolor Nat Unit Unit Unit :=
  { smallSetup .randomRecolor quarterOfTheWay.schedule with
    config := { population := 4, walk := 1, seed := some 7, maxRounds := some 2 } }

/-- The limit stops it, whether its first round is made by hand or not. -/
theorem run_is_bounded_stepping_twoRounds :
    ∃ s₀ s₁ s₂ outcome report,
      start twoRounds () () () 0 (Factory.copies (Coloring.uniform (Graph.path 3) 2)) = .ok s₀ ∧
      steps twoRounds 1 s₀ = .ok s₁ ∧ Goes twoRounds s₀ 2 s₂ ∧ outcome.state = .running ∧
      run twoRounds s₀ = .ok (outcome, report) ∧ run twoRounds s₁ = .ok (outcome, report) := by
  obtain ⟨s₀, s₂, hstart, hsteps, hview⟩ := exists_steps_of_view twoRounds
    (start twoRounds () () () 0 (Factory.copies (Coloring.uniform (Graph.path 3) 2))) 2
    (fun s => (s.state, s.round)) (.running, 2) (by decide +kernel)
  obtain ⟨hrunning, hround⟩ := Prod.mk.inj hview
  have hwithin : ∀ {s : Search (Coloring (Graph.path 3)) Unit Unit Unit} {before : Nat},
      s.round ≤ 2 → ∀ limit, twoRounds.config.maxRounds = some limit →
        s.round ≤ max limit before := by
    intro s before hle limit hlimit
    cases hlimit
    exact hle.trans (Nat.le_max_left 2 before)
  obtain ⟨made, hmade⟩ := exists_goes_of_steps hsteps (hwithin hround.le)
  obtain rfl : made = 2 := by
    have hcount := hmade.round_eq
    rw [hround, (opened_of_start hstart).round] at hcount
    omega
  obtain ⟨-, state, s₁, hstep, hrest⟩ := Goes.succ_iff.mp hmade
  have hfirst : steps twoRounds 1 s₀ = .ok s₁ := steps_succ_eq_ok.mpr ⟨state, s₁, hstep, rfl⟩
  have hreached : Reached twoRounds (fun _ => True) s₀ :=
    .start (Factory.copies_yields fun _ _ => trivial) hstart
  obtain ⟨-, hstopped, -, hresumed⟩ := run_is_bounded_stepping hreached
  have hstops : s₂.stops twoRounds.config = true := by
    rw [stops, hround]
    exact Bool.or_true _
  obtain ⟨outcome, report, -, hrun, hends⟩ := hstopped hmade hstops
  refine ⟨s₀, s₁, s₂, outcome, report, hstart, hfirst, hmade, ?_, hrun, ?_⟩
  · exact hends.running_iff.mpr ((running_iff_stoppedByLimit hstops).mp hrunning)
  · rw [hresumed hfirst (hwithin (round_le_of_steps hrest.steps |>.trans hround.le)), hrun]

end Winners
