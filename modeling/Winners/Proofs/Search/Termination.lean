import Winners.Proofs.Search.Consistent
import Winners.Proofs.Search.NeverFails

set_option autoImplicit false

/-! # Searches end by themselves

A run needs no round limit to end. What counts down is the room that the threshold leaves for
improvement: a round ends the search, fails, or adopts a better threshold, whatever the schedule
proposes, and a better threshold leaves less room. A NaN or a threshold that is no better ends the
search at once.

`Runs` says which steps a run makes and how many they are. There is such a number for every
search, and the room bounds it (`exists_runs`). Since a round adds one to the count of rounds, a
new search that runs to its end tells the number itself (`unlimited_search_ends`).
-/

namespace Winners.Search

variable {τ μ ν π σ ω : Type} [Tracker τ μ ν] {setup : Setup τ μ ν π σ ω}

/-! ## The steps of a run -/

/-- **The steps that a run makes**: their number, the result and the search at the end. A step that
fails counts as well. -/
inductive Runs (setup : Setup τ μ ν π σ ω) :
    Search τ π σ ω → Nat → Except Error Unit × Search τ π σ ω → Prop
  | stopped {s : Search τ π σ ω} (hstops : s.stops setup.config = true) :
      Runs setup s 0 (.ok (), s)
  | failed {s s' : Search τ π σ ω} {e : Error} (hgoes : ¬s.stops setup.config = true)
      (hstep : step setup s = (.error e, s')) : Runs setup s 1 (.error e, s')
  | stepped {s s' : Search τ π σ ω} {state : SearchState} {count : Nat}
      {result : Except Error Unit × Search τ π σ ω} (hgoes : ¬s.stops setup.config = true)
      (hstep : step setup s = (.ok state, s')) (hrest : Runs setup s' count result) :
      Runs setup s (count + 1) result

/-- **A run makes finitely many steps**, no more than there is room for. -/
theorem exists_runs (setup : Setup τ μ ν π σ ω) (s : Search τ π σ ω) :
    ∃ count, count ≤ s.room setup.schedule.direction ∧ Runs setup s count (proceed setup s) := by
  induction s using proceed.induct setup with
  | case1 s hstops =>
      rw [proceed_of_stops hstops]
      exact ⟨0, Nat.zero_le _, .stopped hstops⟩
  | case2 s hgoes e s' hstep =>
      rw [proceed_of_failed hgoes hstep]
      refine ⟨1, ?_, .failed hgoes hstep⟩
      rw [room, not_isFinal_of_not_stops hgoes]
      exact Nat.succ_pos _
  | case3 s hgoes state s' hstep hroom ih =>
      obtain ⟨count, hcount, hruns⟩ := ih
      rw [proceed_of_step hgoes hstep]
      exact ⟨count + 1, Nat.lt_of_le_of_lt hcount hroom, .stepped hgoes hstep hruns⟩

/-! ## The end of a run -/

/-- Every step of a search that has not ended counts as a round, also one that fails. -/
theorem Round.round_succ {s s' : Search τ π σ ω} {result : Except Error SearchState}
    (hround : Round setup s result s') (hrunning : s.state = .running) :
    s'.round = s.round + 1 := by
  cases hround with
  | ended hfinal =>
      rw [hrunning] at hfinal
      cases hfinal
  | failed => rfl
  | stalled => exact round_announce setup _ _
  | extinct => exact round_announce setup _ _
  | overfull => rfl
  | survived => exact round_announce setup _ _

theorem Runs.round_eq {s : Search τ π σ ω} {count : Nat}
    {result : Except Error Unit × Search τ π σ ω} (h : Runs setup s count result) :
    result.2.round = s.round + count := by
  induction h with
  | stopped => rfl
  | failed hgoes hstep =>
      have hrunning := isFinal_eq_false_iff.mp (not_isFinal_of_not_stops hgoes)
      exact (round_of_step hstep).round_succ hrunning
  | stepped hgoes hstep _ ih =>
      have hrunning := isFinal_eq_false_iff.mp (not_isFinal_of_not_stops hgoes)
      rw [ih, (round_of_step hstep).round_succ hrunning]
      omega

/-- What holds at the end of a run without an error, and before a round if it holds after it, holds
at the start. -/
theorem Runs.induction_ok {Q : Nat → Search τ π σ ω → Prop} {last : Search τ π σ ω}
    (hstopped : last.stops setup.config = true → Q 0 last)
    (hstepped : ∀ {s s' : Search τ π σ ω} {state : SearchState} {count : Nat},
      s.state = .running → step setup s = (.ok state, s') → Q count s' → Q (count + 1) s)
    {s : Search τ π σ ω} {count : Nat} (h : Runs setup s count (.ok (), last)) : Q count s := by
  generalize hresult : ((.ok (), last) : Except Error Unit × Search τ π σ ω) = result at h
  induction h with
  | stopped hstops =>
      cases hresult
      exact hstopped hstops
  | failed => cases hresult
  | stepped hgoes hstep _ ih =>
      have hrunning := isFinal_eq_false_iff.mp (not_isFinal_of_not_stops hgoes)
      exact hstepped hrunning hstep (ih hresult)

theorem Runs.stops {s last : Search τ π σ ω} {count : Nat}
    (h : Runs setup s count (.ok (), last)) : last.stops setup.config = true :=
  h.induction_ok (Q := fun _ _ => last.stops setup.config = true) id fun _ _ ih => ih

/-- A run without an error makes its steps. -/
theorem Runs.steps {s last : Search τ π σ ω} {count : Nat}
    (h : Runs setup s count (.ok (), last)) : steps setup count s = .ok last :=
  h.induction_ok (Q := fun count s => Search.steps setup count s = .ok last) (fun _ => rfl)
    fun _ hstep ih => steps_succ_eq_ok.mpr ⟨_, _, hstep, ih⟩

theorem Runs.full {s last : Search τ π σ ω} {count : Nat}
    (h : Runs setup s count (.ok (), last)) (hs : Full setup s) : Full setup last :=
  steps_kept (fun hround hfull => hround.full hfull) hs h.steps

omit [Tracker τ μ ν] in
/-- Without a round limit only the end of the search stops a run. -/
theorem isFinal_of_stops {s : Search τ π σ ω} (hlimit : setup.config.maxRounds = none)
    (h : s.stops setup.config = true) : s.state.isFinal = true := by
  unfold stops at h
  rw [hlimit] at h
  simpa using h

/-- An outcome of a population that is not empty, with what it takes from the search. -/
theorem exists_outcome {s : Search τ π σ ω} (h : Full setup s) :
    ∃ outcome report, finish setup s = .ok (outcome, report) ∧ outcome.state = s.state ∧
      outcome.rounds = s.round := by
  obtain ⟨best, -, hbest⟩ := Population.exists_best setup.schedule.direction h.nonempty
  rw [finish, hbest]
  exact ⟨_, _, rfl, rfl, rfl⟩

/-- What steps keep, those that fail included, is kept by runs. -/
theorem Runs.kept {Q : Search τ π σ ω → Prop} (hstep : ∀ {s}, Q s → Q (step setup s).2)
    {s : Search τ π σ ω} {count : Nat} {result : Except Error Unit × Search τ π σ ω}
    (h : Runs setup s count result) (hs : Q s) : Q result.2 := by
  induction h with
  | stopped => exact hs
  | failed _ hfailed =>
      have hnext := hstep hs
      rwa [hfailed] at hnext
  | stepped _ hok _ ih =>
      have hnext := hstep hs
      rw [hok] at hnext
      exact ih hnext

/-- A run with an outcome makes its steps without an error, and the outcome is that of the search at
the end. -/
theorem exists_runs_of_run {s : Search τ π σ ω} {result : Outcome τ × ω}
    (hrun : run setup s = .ok result) :
    ∃ count last, Runs setup s count (.ok (), last) ∧ finish setup last = .ok result := by
  obtain ⟨count, -, hruns⟩ := exists_runs setup s
  unfold run at hrun
  split at hrun
  · cases hrun
  · next last hproceed =>
      rw [hproceed] at hruns
      exact ⟨count, last, hruns, hrun⟩

/-- The outcome of a run is that of a search with all that steps keep. -/
theorem exists_of_run {Q : Search τ π σ ω → Prop} (hstep : ∀ {s}, Q s → Q (step setup s).2)
    {s : Search τ π σ ω} (hs : Q s) {result : Outcome τ × ω} (hrun : run setup s = .ok result) :
    ∃ last, Q last ∧ finish setup last = .ok result := by
  obtain ⟨count, last, hruns, hfinish⟩ := exists_runs_of_run hrun
  exact ⟨last, hruns.kept hstep hs, hfinish⟩

end Winners.Search

namespace Winners

open Search

/-- **A search ends without a round limit**, whatever its schedule proposes and whenever it does.
A run makes a bounded number of steps. Either the last of them fails, and with it the run, or
the search has ended and the outcome tells the number of steps. A single step fails, ends the search
or adopts a strictly better threshold, and thresholds do not improve forever. -/
theorem unlimited_search_ends {τ μ ν π σ ω : Type} [Tracker τ μ ν]
    {setup : Setup τ μ ν π σ ω} (hlimit : setup.config.maxRounds = none) {memory : π} {plan : σ}
    {report : ω} {fallbackSeed : UInt64} {factory : Factory τ} {s₀ : Search τ π σ ω}
    (hstart : start setup memory plan report fallbackSeed factory = .ok s₀) :
    let d := setup.schedule.direction
    (∃ count result, Runs setup s₀ count result ∧ count ≤ d.room setup.schedule.initial + 1 ∧
      ((∃ e, result.1 = .error e ∧ run setup s₀ = .error e) ∨
        (result.1 = .ok () ∧ result.2.state.isFinal = true ∧
          ∃ outcome report, run setup s₀ = .ok (outcome, report) ∧
            outcome.state = result.2.state ∧ outcome.rounds = count))) ∧
    (∀ {s s' : Search τ π σ ω} {result : Except Error SearchState}, s.state = .running →
      step setup s = (result, s') →
        (∃ e, result = .error e) ∨ s'.state.isFinal = true ∨
          (s'.state = .running ∧ d.improves s'.threshold s.threshold = true)) ∧
    ∀ (d' : Direction) (chain : Nat → Binary64),
      ¬∀ i, d'.improves (chain (i + 1)) (chain i) = true := by
  intro d
  have hopened := opened_of_start hstart
  refine ⟨?_, ?_, Direction.not_improves_forever⟩
  · obtain ⟨count, hcount, hruns⟩ := exists_runs setup s₀
    have hroom : s₀.room d = d.room setup.schedule.initial + 1 := by
      rw [room, hopened.state, hopened.threshold]
      rfl
    refine ⟨count, proceed setup s₀, hruns, hroom ▸ hcount, ?_⟩
    have hrounds := hruns.round_eq
    rcases hresult : proceed setup s₀ with ⟨result, last⟩
    rw [hresult] at hruns hrounds
    cases result with
    | error e => exact Or.inl ⟨e, rfl, by rw [run, hresult]⟩
    | ok done =>
        have hfinal := isFinal_of_stops hlimit hruns.stops
        have hfull := hruns.full hopened.full
        obtain ⟨outcome, report, hfinish, hstate, hround⟩ := exists_outcome hfull
        have hrun : run setup s₀ = .ok (outcome, report) := by
          rw [run, hresult]
          exact hfinish
        refine Or.inr ⟨rfl, hfinal, outcome, report, hrun, hstate, ?_⟩
        rw [hround, hrounds, hopened.round, Nat.zero_add]
  · intro s s' result hrunning hstep
    cases result with
    | error e => exact Or.inl ⟨e, rfl⟩
    | ok state =>
        rcases step_final_or_improves hstep with hfinal | hbetter
        · exact Or.inr (Or.inl hfinal)
        · cases hended : s'.state.isFinal with
          | true => exact Or.inr (Or.inl rfl)
          | false => exact Or.inr (Or.inr ⟨isFinal_eq_false_iff.mp hended, hbetter⟩)

/-- The search for a threshold below two ends with an outcome. -/
theorem unlimited_search_ends_falling :
    ∃ s₀ count outcome report,
      smallSearch .randomRecolor fallingToTwo (Coloring.uniform (Graph.path 3) 2) = .ok s₀ ∧
      count ≤ Direction.minimize.room (.ofNat 5) + 1 ∧
      run (smallSetup .randomRecolor fallingToTwo) s₀ = .ok (outcome, report) ∧
      outcome.state.isFinal = true ∧ outcome.rounds = count := by
  have hlegal : NeverFails (smallSetup (.randomRecolor (G := Graph.path 3)) fallingToTwo) :=
    neverFails_of_legal Policy.legal_randomRecolor
  obtain ⟨s₀, result, hstart, hrun⟩ := exists_small_run hlegal
    (Coloring.uniform (Graph.path 3) 2) (by decide +kernel)
  obtain ⟨⟨count, ended, -, hcount, hends⟩, -, -⟩ := unlimited_search_ends rfl hstart
  rcases hends with ⟨e, -, hfailed⟩ | ⟨-, hfinal, outcome, report, hdone, hstate, hrounds⟩
  · rw [hrun] at hfailed
    cases hfailed
  · exact ⟨s₀, count, outcome, report, hstart, hcount, hdone, hstate ▸ hfinal, hrounds⟩

end Winners
