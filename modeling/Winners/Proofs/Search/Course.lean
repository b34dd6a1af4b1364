import Winners.Proofs.Search.Reached

set_option autoImplicit false

/-! # Courses without errors

`steps` makes a number of steps and stops at the first that fails. What each step keeps is kept by
any number of them (`steps_kept`). A run takes the same steps until it stops
(`proceed_of_stops`, `proceed_of_failed`, `proceed_of_step`).

The first thing kept is the number of particles, which is the configured one from the start on
(`Round.full`).
-/

namespace Winners.Search

variable {τ μ ν π σ ω : Type} [Tracker τ μ ν] {setup : Setup τ μ ν π σ ω}

/-- The search after some steps, or the error of the first step that fails. -/
def steps (setup : Setup τ μ ν π σ ω) :
    (count : Nat) → Search τ π σ ω → Except Error (Search τ π σ ω)
  | 0, s => .ok s
  | count + 1, s =>
      match step setup s with
      | (.error e, _) => .error e
      | (.ok _, s) => steps setup count s

theorem steps_succ_eq_ok {count : Nat} {s s' : Search τ π σ ω} :
    steps setup (count + 1) s = .ok s' ↔
      ∃ state next, step setup s = (.ok state, next) ∧ steps setup count next = .ok s' := by
  rw [steps]
  split
  · next hstep =>
      constructor
      · intro h
        cases h
      · rintro ⟨state, next, hnext, -⟩
        rw [hstep] at hnext
        cases hnext
  · next state next hstep =>
      constructor
      · intro h
        exact ⟨state, next, hstep, h⟩
      · rintro ⟨state', next', hnext, h⟩
        rw [hstep] at hnext
        cases hnext
        exact h

theorem round_of_step {s s' : Search τ π σ ω} {result : Except Error SearchState}
    (h : step setup s = (result, s')) : Round setup s result s' := by
  have hround := round_step setup s
  rwa [h] at hround

/-- What each error-free round keeps is kept by any number of steps. -/
theorem steps_kept {Q : Search τ π σ ω → Prop}
    (hround : ∀ {s s' state}, Round setup s (.ok state) s' → Q s → Q s') {count : Nat} :
    ∀ {s s' : Search τ π σ ω}, Q s → steps setup count s = .ok s' → Q s' := by
  induction count with
  | zero =>
      intro s s' hs h
      cases h
      exact hs
  | succ count ih =>
      intro s s' hs h
      obtain ⟨state, next, hstep, hrest⟩ := steps_succ_eq_ok.mp h
      exact ih (hround (round_of_step hstep) hs) hrest

theorem Reached.steps {P : τ → Prop} {count : Nat} :
    ∀ {s s' : Search τ π σ ω}, Reached setup P s → steps setup count s = .ok s' →
      Reached setup P s' := by
  induction count with
  | zero =>
      intro s s' hs h
      cases h
      exact hs
  | succ count ih =>
      intro s s' hs h
      obtain ⟨state, next, hstep, hrest⟩ := steps_succ_eq_ok.mp h
      have hnext := hs.step
      rw [hstep] at hnext
      exact ih hnext hrest

/-- A search that is built and makes its steps, from what is seen of it in the end. -/
theorem exists_steps_of_view {α : Type} (setup : Setup τ μ ν π σ ω)
    (built : Except Error (Search τ π σ ω)) (count : Nat) (view : Search τ π σ ω → α) (a : α)
    (h : ((built >>= steps setup count).map view).toOption = some a) :
    ∃ s₀ s, built = .ok s₀ ∧ steps setup count s₀ = .ok s ∧ view s = a := by
  cases hrun : built >>= steps setup count with
  | error e =>
      rw [hrun] at h
      cases h
  | ok s =>
      obtain ⟨s₀, hbuilt, hsteps⟩ := bind_eq_ok.mp hrun
      rw [hrun] at h
      exact ⟨s₀, s, hbuilt, hsteps, Option.some.inj h⟩

/-! ## Runs -/

omit [Tracker τ μ ν] in
/-- A run goes on while the search runs and is below its round limit. -/
theorem stops_eq_false_iff {config : Config} {s : Search τ π σ ω} :
    s.stops config = false ↔
      s.state = .running ∧ ∀ limit, config.maxRounds = some limit → s.round < limit := by
  rw [stops, Bool.or_eq_false_iff, isFinal_eq_false_iff, Option.any_eq_false]
  simp only [decide_eq_false_iff_not, Nat.not_le]

theorem proceed_of_stops {s : Search τ π σ ω} (hstops : s.stops setup.config = true) :
    proceed setup s = (.ok (), s) := by
  rw [proceed, dif_pos hstops]

theorem proceed_of_failed {s s' : Search τ π σ ω} {e : Error}
    (hstops : ¬s.stops setup.config = true) (hstep : step setup s = (.error e, s')) :
    proceed setup s = (.error e, s') := by
  rw [proceed, dif_neg hstops]
  split
  · next hfailed =>
      rw [hstep] at hfailed
      cases hfailed
      rfl
  · next hok =>
      rw [hstep] at hok
      cases hok

theorem proceed_of_step {s s' : Search τ π σ ω} {state : SearchState}
    (hstops : ¬s.stops setup.config = true) (hstep : step setup s = (.ok state, s')) :
    proceed setup s = proceed setup s' := by
  rw [proceed, dif_neg hstops]
  split
  · next hfailed =>
      rw [hstep] at hfailed
      cases hfailed
  · next hok =>
      rw [hstep] at hok
      cases hok
      rfl

/-! ## The number of particles -/

theorem length_walked (s : Search τ π σ ω) :
    (walked setup s).population.particles.length = s.population.particles.length :=
  Population.length_mixAll _ _ _ _

/-- As many particles as are configured, and not none. -/
structure Full (setup : Setup τ μ ν π σ ω) (s : Search τ π σ ω) : Prop where
  length : s.population.particles.length = setup.config.population
  pos : 0 < setup.config.population

omit [Tracker τ μ ν] in
theorem Full.nonempty {s : Search τ π σ ω} (h : Full setup s) : s.population.particles ≠ [] := by
  apply List.ne_nil_of_length_pos
  rw [h.length]
  exact h.pos

theorem full_announce {proposed : Binary64} {s : Search τ π σ ω} :
    Full setup (announce setup proposed s) ↔ Full setup s := by
  rw [announce_eq]
  exact ⟨fun h => ⟨h.length, h.pos⟩, fun h => ⟨h.length, h.pos⟩⟩

theorem Opened.full {factory : Factory τ} {s : Search τ π σ ω} (h : Opened setup factory s) :
    Full setup s := by
  obtain ⟨draws, hcreate⟩ := h.created
  obtain ⟨-, hlength, hpos⟩ :=
    Population.create_spec (P := fun _ => True) (fun _ _ _ _ _ => trivial) hcreate
  exact ⟨hlength, hpos⟩

theorem Full.walked {s : Search τ π σ ω} (h : Full setup s) : Full setup (walked setup s) :=
  ⟨(length_walked s).trans h.length, h.pos⟩

/-- **A round without an error leaves the population full.** -/
theorem Round.full {s s' : Search τ π σ ω} {state : SearchState}
    (hround : Round setup s (.ok state) s') (h : Full setup s) : Full setup s' := by
  obtain ⟨hlength, hpos⟩ := h.walked
  cases hround with
  | ended => exact h
  | stalled => exact full_announce.mpr ⟨hlength, hpos⟩
  | extinct => exact full_announce.mpr ⟨hlength, hpos⟩
  | survived _ _ _ _ hfill =>
      exact full_announce.mpr ⟨Population.length_replenish hfill _, hpos⟩

end Winners.Search
