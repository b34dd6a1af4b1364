import Winners.Proofs.Search.Consistent

set_option autoImplicit false

/-! # The best particle seen

A search remembers the best particle that any round's walks have led to. Most of the particles it
has seen are gone: culls and further walks destroy them. So they are written down beside the
search (`sightings`), and the invariant `Watched` says that the remembered particle is the first
of the best in that list (`FirstBest`), as if the best had been chosen from all of it at once.

Fitness has to be a number for this. Then particles are ordered by the room that their fitness
leaves for improvement, and the best of two lists in a row is the better one of their bests.
-/

namespace Winners

section

variable {τ μ ν : Type} [Tracker τ μ ν]

/-! ## The first of the best -/

/-- The first of the best entries of a list: it improves on those before, and those after do not
improve on it. -/
def FirstBest (d : Direction) (b : τ) (xs : List τ) : Prop :=
  ∃ before after, xs = before ++ b :: after ∧
    (∀ x ∈ before, d.improves (Tracker.fitness b) (Tracker.fitness x) = true) ∧
    ∀ x ∈ after, d.improves (Tracker.fitness x) (Tracker.fitness b) = false

namespace FirstBest

variable {d : Direction} {b c x : τ} {xs ys : List τ}

theorem singleton (d : Direction) (b : τ) : FirstBest d b [b] :=
  ⟨[], [], rfl, fun _ h => absurd h List.not_mem_nil, fun _ h => absurd h List.not_mem_nil⟩

theorem mem (h : FirstBest d b xs) : b ∈ xs := by
  obtain ⟨before, after, rfl, -, -⟩ := h
  exact List.mem_append_right before List.mem_cons_self

theorem not_better (h : FirstBest d b xs) (hx : x ∈ xs) :
    d.improves (Tracker.fitness x) (Tracker.fitness b) = false := by
  obtain ⟨before, after, rfl, hbefore, hafter⟩ := h
  rcases List.mem_append.mp hx with hx | hx
  · exact Direction.improves_asymm (hbefore x hx)
  · rcases List.mem_cons.mp hx with rfl | hx
    · exact Direction.improves_self d _
    · exact hafter x hx

/-- Entries that are no better may follow. -/
theorem append_left (h : FirstBest d b xs)
    (hys : ∀ y ∈ ys, d.improves (Tracker.fitness y) (Tracker.fitness b) = false) :
    FirstBest d b (xs ++ ys) := by
  obtain ⟨before, after, rfl, hbefore, hafter⟩ := h
  refine ⟨before, after ++ ys, List.append_assoc _ _ _, hbefore, ?_⟩
  intro x hx
  rcases List.mem_append.mp hx with hx | hx
  · exact hafter x hx
  · exact hys x hx

/-- Entries that are worse may stand before. -/
theorem append_right (h : FirstBest d c ys)
    (hxs : ∀ x ∈ xs, d.improves (Tracker.fitness c) (Tracker.fitness x) = true) :
    FirstBest d c (xs ++ ys) := by
  obtain ⟨before, after, rfl, hbefore, hafter⟩ := h
  refine ⟨xs ++ before, after, (List.append_assoc _ _ _).symm, ?_, hafter⟩
  intro x hx
  rcases List.mem_append.mp hx with hx | hx
  · exact hxs x hx
  · exact hbefore x hx

/-- **The first of the best of two lists in a row** is that of the second list just when it
improves on that of the first. -/
theorem append (hxs : ∀ x ∈ xs, (Tracker.fitness x).isNaN = false)
    (hys : ∀ y ∈ ys, (Tracker.fitness y).isNaN = false) (hb : FirstBest d b xs)
    (hc : FirstBest d c ys) :
    FirstBest d (if d.improves (Tracker.fitness c) (Tracker.fitness b) then c else b)
      (xs ++ ys) := by
  have hbnum := hxs b hb.mem
  have hcnum := hys c hc.mem
  -- with numbers only, all comparisons are comparisons of room
  split
  · next hbetter =>
      have hcb := (Direction.improves_iff_room_lt hcnum hbnum).mp hbetter
      apply hc.append_right
      intro x hx
      have hbx := (Direction.improves_eq_false_iff (hxs x hx) hbnum).mp (hb.not_better hx)
      exact (Direction.improves_iff_room_lt hcnum (hxs x hx)).mpr (Nat.lt_of_lt_of_le hcb hbx)
  · next hworse =>
      have hbc := (Direction.improves_eq_false_iff hcnum hbnum).mp (Bool.eq_false_iff.mpr hworse)
      apply hb.append_left
      intro y hy
      have hcy := (Direction.improves_eq_false_iff (hys y hy) hcnum).mp (hc.not_better hy)
      exact (Direction.improves_eq_false_iff (hys y hy) hbnum).mpr (Nat.le_trans hbc hcy)

/-- A fold that takes an entry just when it improves on what it has ends with the first of the
best. -/
theorem foldl {choose : Option τ → τ → Option τ}
    (hchoose : ∀ b y, choose (some b) y =
      some (if d.improves (Tracker.fitness y) (Tracker.fitness b) then y else b))
    (hys : ∀ y ∈ ys, (Tracker.fitness y).isNaN = false) :
    ∀ {xs : List τ} {b : τ}, (∀ x ∈ xs, (Tracker.fitness x).isNaN = false) → FirstBest d b xs →
      ys.foldl choose (some b) = some c → FirstBest d c (xs ++ ys) := by
  -- the induction is on what is to come; `xs` is what the fold has behind it
  induction ys with
  | nil =>
      intro xs b _ hb hfold
      cases hfold
      rwa [List.append_nil]
  | cons y ys ih =>
      intro xs b hxs hb hfold
      obtain ⟨hy, hys⟩ := List.forall_mem_cons.mp hys
      have hsingle : ∀ x ∈ [y], (Tracker.fitness x).isNaN = false :=
        List.forall_mem_singleton.mpr hy
      rw [List.foldl_cons, hchoose] at hfold
      have hc := ih hys (List.forall_mem_append.mpr ⟨hxs, hsingle⟩)
        (append hxs hsingle hb (singleton d y)) hfold
      rwa [List.append_assoc, List.singleton_append] at hc

end FirstBest

theorem Population.firstBest_of_best {d : Direction} {population : Population τ} {b : τ}
    (hnum : ∀ x ∈ population.particles, (Tracker.fitness x).isNaN = false)
    (h : population.best d = some b) : FirstBest d b population.particles := by
  obtain ⟨particles⟩ := population
  cases particles with
  | nil => cases h
  | cons x xs =>
      obtain ⟨hx, hxs⟩ := List.forall_mem_cons.mp hnum
      rw [Population.best, List.foldl_cons] at h
      refine FirstBest.foldl ?_ hxs (List.forall_mem_singleton.mpr hx) (FirstBest.singleton d x) h
      intro b y
      dsimp only
      split <;> rfl

end

namespace Search

variable {τ μ ν π σ ω : Type} [Tracker τ μ ν] {setup : Setup τ μ ν π σ ω}

/-! ## What a search sees -/

/-- The particles as the walks of the next round leave them, before any is culled. A search that
has ended walks no more. -/
def sighted (setup : Setup τ μ ν π σ ω) (s : Search τ π σ ω) : List τ :=
  if s.state.isFinal then [] else (walked setup s).population.particles

/-- The particles seen in the rounds of some steps, in the order of the rounds and of their
slots. -/
def sightings (setup : Setup τ μ ν π σ ω) : (count : Nat) → Search τ π σ ω → List τ
  | 0, _ => []
  | count + 1, s => sighted setup s ++ sightings setup count (step setup s).2

theorem sighted_of_final {s : Search τ π σ ω} (h : s.state.isFinal = true) :
    sighted setup s = [] :=
  if_pos h

theorem sighted_of_running {s : Search τ π σ ω} (h : s.state = .running) :
    sighted setup s = (walked setup s).population.particles :=
  if_neg (by rw [h]; decide)

/-! ## The record -/

/-- Recording takes the best particle of the population just when it improves on the record. -/
theorem bestSeen_recordBest {d : Direction} {s : Search τ π σ ω} {b : τ}
    (h : s.population.best d = some b) :
    (s.recordBest d).bestSeen =
      if d.improves (Tracker.fitness b) (Tracker.fitness s.bestSeen) then b else s.bestSeen := by
  rw [recordBest, h]
  dsimp only
  split <;> rfl

theorem firstBest_recordBest {d : Direction} {s : Search τ π σ ω} {seen : List τ}
    (hseen : ∀ x ∈ seen, (Tracker.fitness x).isNaN = false)
    (hparticles : ∀ x ∈ s.population.particles, (Tracker.fitness x).isNaN = false)
    (h : FirstBest d s.bestSeen seen) :
    FirstBest d (s.recordBest d).bestSeen (seen ++ s.population.particles) := by
  by_cases hnil : s.population.particles = []
  · have hnone : s.population.best d = none := by
      rw [Population.best, hnil]
      rfl
    rw [hnil, List.append_nil, recordBest, hnone]
    exact h
  · obtain ⟨b, -, hb⟩ := Population.exists_best d hnil
    rw [bestSeen_recordBest hb]
    exact h.append hseen hparticles (Population.firstBest_of_best hparticles hb)

/-- The record never gets worse. -/
theorem recordBest_not_worse (d : Direction) (s : Search τ π σ ω) :
    d.improves (Tracker.fitness s.bestSeen) (Tracker.fitness (s.recordBest d).bestSeen) =
      false := by
  unfold recordBest
  split
  · exact Direction.improves_self d _
  · split
    · next hbetter => exact Direction.improves_asymm hbetter
    · exact Direction.improves_self d _

/-- What a search holds after a round: it has recorded the best of the particles sighted, and the
particles that it keeps are among them. -/
theorem Round.record {s s' : Search τ π σ ω} {state : SearchState}
    (hround : Round setup s (.ok state) s') (hrunning : s.state = .running) :
    s'.bestSeen = ((walked setup s).recordBest setup.schedule.direction).bestSeen ∧
      ∀ x ∈ s'.population.particles, x ∈ (walked setup s).population.particles := by
  cases hround with
  | ended hfinal =>
      rw [hrunning] at hfinal
      cases hfinal
  | stalled =>
      rw [bestSeen_announce, population_announce]
      exact ⟨rfl, fun x hx => hx⟩
  | extinct =>
      rw [bestSeen_announce, population_announce]
      exact ⟨rfl, fun x hx => hx⟩
  | survived _ _ _ _ hfill =>
      rw [bestSeen_announce, population_announce]
      refine ⟨rfl, ?_⟩
      intro x hx
      exact (mem_survivors.mp (Population.mem_of_mem_replenish hfill hx)).1

/-- A search that has ended is left as it is by a round. -/
theorem Round.eq_of_final {s s' : Search τ π σ ω} {result : Except Error SearchState}
    (hround : Round setup s result s') (hfinal : s.state.isFinal = true) : s' = s := by
  cases hround with
  | ended => rfl
  | failed hrunning => rw [hrunning] at hfinal; cases hfinal
  | stalled hrunning => rw [hrunning] at hfinal; cases hfinal
  | extinct hrunning => rw [hrunning] at hfinal; cases hfinal
  | overfull hrunning => rw [hrunning] at hfinal; cases hfinal
  | survived hrunning => rw [hrunning] at hfinal; cases hfinal

/-- The remembered fitness never gets worse from step to step. -/
theorem Round.bestSeen_not_worse {s s' : Search τ π σ ω} {state : SearchState}
    (hround : Round setup s (.ok state) s') :
    setup.schedule.direction.improves (Tracker.fitness s.bestSeen) (Tracker.fitness s'.bestSeen) =
      false := by
  cases hfinal : s.state.isFinal with
  | true =>
      rw [hround.eq_of_final hfinal]
      exact Direction.improves_self _ _
  | false =>
      rw [(hround.record (isFinal_eq_false_iff.mp hfinal)).1]
      exact recordBest_not_worse _ (walked setup s)

/-! ## Watching a search -/

/-- **The invariant of the record.** The remembered particle is the first of the best of all seen,
and those of the population are among them. -/
structure Watched (d : Direction) (seen : List τ) (s : Search τ π σ ω) : Prop where
  best : FirstBest d s.bestSeen seen
  present : ∀ x ∈ s.population.particles, x ∈ seen

theorem Opened.watched {factory : Factory τ} {s : Search τ π σ ω} (h : Opened setup factory s)
    (hnum : ∀ x ∈ s.population.particles, (Tracker.fitness x).isNaN = false) :
    Watched setup.schedule.direction s.population.particles s :=
  ⟨Population.firstBest_of_best hnum h.best, fun _ hx => hx⟩

/-- **A round adds what it sights to what has been seen.** -/
theorem Round.watched {s s' : Search τ π σ ω} {state : SearchState}
    (hround : Round setup s (.ok state) s') {seen : List τ}
    (hnum : ∀ x ∈ seen ++ sighted setup s, (Tracker.fitness x).isNaN = false)
    (h : Watched setup.schedule.direction seen s) :
    Watched setup.schedule.direction (seen ++ sighted setup s) s' := by
  cases hfinal : s.state.isFinal with
  | true =>
      rw [sighted_of_final hfinal, List.append_nil, hround.eq_of_final hfinal]
      exact h
  | false =>
      have hrunning := isFinal_eq_false_iff.mp hfinal
      obtain ⟨hbest, hpresent⟩ := hround.record hrunning
      rw [sighted_of_running hrunning] at hnum ⊢
      obtain ⟨hseen, hwalked⟩ := List.forall_mem_append.mp hnum
      refine ⟨?_, ?_⟩
      · rw [hbest]
        exact firstBest_recordBest (s := walked setup s) hseen hwalked h.best
      · intro x hx
        exact List.mem_append_right seen (hpresent x hx)

theorem Watched.steps {count : Nat} : ∀ {seen : List τ} {s s' : Search τ π σ ω},
    (∀ x ∈ seen ++ sightings setup count s, (Tracker.fitness x).isNaN = false) →
      Watched setup.schedule.direction seen s → steps setup count s = .ok s' →
      Watched setup.schedule.direction (seen ++ sightings setup count s) s' := by
  induction count with
  | zero =>
      intro seen s s' _ h hsteps
      cases hsteps
      rwa [sightings, List.append_nil]
  | succ count ih =>
      intro seen s s' hnum h hsteps
      obtain ⟨state, next, hstep, hrest⟩ := steps_succ_eq_ok.mp hsteps
      rw [sightings, hstep, ← List.append_assoc] at hnum ⊢
      have hnow := (List.forall_mem_append.mp hnum).1
      exact ih hnum ((round_of_step hstep).watched hnow h) hrest

end Search

open Search

/-- **The remembered particle is the best of all seen**, when no particle seen has a NaN for its
fitness. It is the first of the best among the initial particles and those that each round's walks
have led to. No step makes its fitness worse, and neither a particle of the population nor the
best one of an outcome improves on it. -/
theorem best_seen_is_best_of_all {τ μ ν π σ ω : Type} [Tracker τ μ ν]
    {setup : Setup τ μ ν π σ ω} {memory : π} {plan : σ} {report : ω} {fallbackSeed : UInt64}
    {factory : Factory τ} {s₀ s : Search τ π σ ω}
    (hstart : start setup memory plan report fallbackSeed factory = .ok s₀) {count : Nat}
    (hsteps : steps setup count s₀ = .ok s)
    (hnum : ∀ x ∈ s₀.population.particles ++ sightings setup count s₀,
      (Tracker.fitness x).isNaN = false) :
    let d := setup.schedule.direction
    let seen := s₀.population.particles ++ sightings setup count s₀
    FirstBest d s.bestSeen seen ∧
    (∀ x ∈ seen, d.improves (Tracker.fitness x) (Tracker.fitness s.bestSeen) = false) ∧
    (∀ state s', step setup s = (.ok state, s') →
      d.improves (Tracker.fitness s.bestSeen) (Tracker.fitness s'.bestSeen) = false) ∧
    (∀ x ∈ s.population.particles,
      d.improves (Tracker.fitness x) (Tracker.fitness s.bestSeen) = false) ∧
    ∃ outcome report, finish setup s = .ok (outcome, report) ∧ outcome.bestSeen = s.bestSeen ∧
      d.improves (Tracker.fitness outcome.best) (Tracker.fitness outcome.bestSeen) = false := by
  intro d seen
  have hopened := opened_of_start hstart
  have hopening := hopened.watched (List.forall_mem_append.mp hnum).1
  have h : Watched d seen s := hopening.steps hnum hsteps
  have hcurrent : ∀ x ∈ s.population.particles,
      d.improves (Tracker.fitness x) (Tracker.fitness s.bestSeen) = false :=
    fun x hx => h.best.not_better (h.present x hx)
  refine ⟨h.best, fun x hx => h.best.not_better hx, ?_, hcurrent, ?_⟩
  · intro state s' hstep
    exact (round_of_step hstep).bestSeen_not_worse
  · have hfull := steps_kept (fun hround hs => hround.full hs) hopened.full hsteps
    obtain ⟨best, hmem, hbest⟩ := Population.exists_best d hfull.nonempty
    rw [finish, hbest]
    exact ⟨_, _, rfl, rfl, hcurrent best hmem⟩

/-- After two rounds the remembered colouring is a proper one that the first round's walks have
found. The population has none any more: the second round's walks have left it. -/
theorem best_seen_is_best_of_all_lost :
    ∃ s₀ s, smallSearch .randomRecolor fallingToTwo (Coloring.uniform (Graph.path 3) 2) = .ok s₀ ∧
      steps (smallSetup .randomRecolor fallingToTwo) 2 s₀ = .ok s ∧
      s.bestSeen.conflicts = 0 ∧ s.population.particles.map (·.conflicts) = [2, 1, 1, 2] ∧
      FirstBest .minimize s.bestSeen (s₀.population.particles ++
        sightings (smallSetup .randomRecolor fallingToTwo) 2 s₀) ∧
      ∀ x ∈ s.population.particles,
        Direction.minimize.improves (Tracker.fitness x) (Tracker.fitness s.bestSeen) = false := by
  obtain ⟨s₀, s, hstart, hsteps, hview⟩ := exists_steps_of_view
    (smallSetup .randomRecolor fallingToTwo)
    (smallSearch .randomRecolor fallingToTwo (Coloring.uniform (Graph.path 3) 2)) 2
    (fun s => (s.bestSeen.conflicts, s.population.particles.map (·.conflicts)))
    (0, [2, 1, 1, 2]) (by decide +kernel)
  obtain ⟨hfirst, -, -, hcurrent, -⟩ := best_seen_is_best_of_all hstart hsteps
    fun x _ => Binary64.isNaN_ofInt x.conflicts
  exact ⟨s₀, s, hstart, hsteps, congrArg Prod.fst hview, congrArg Prod.snd hview, hfirst, hcurrent⟩

end Winners
