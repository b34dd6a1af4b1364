import Winners.Proofs.Search.NeverFails
import Winners.Proofs.Walk.Journal

set_option autoImplicit false

/-! # Rounds that are interrupted

A round fails when a walk makes a move that its tracker refuses. The particles walk in place, one
after the other, so mixing is cut off in the middle (`Population.CutOff`): those in front have made
their walks, one is left where its move was refused, and those behind have not set out. Nothing
after the walks takes place. The search keeps its threshold, its history, its state and the best
particle seen, but its population is the one of the last completed round only if the walks so far
have led nowhere (`failed_round_is_cut_off`).
-/

namespace Winners

variable {τ μ ν π σ ω : Type} [Tracker τ μ ν]

/-! ## Where a walk is cut off -/

/-- A walk that fails ends at a tracker that refuses a move. -/
theorem Walk.exists_refused {policy : Policy τ μ π} {onMutation : μ → τ → ω → ω} {steps : Nat}
    {walk last : Walk τ π ω} {e : Error}
    (h : walk.mix policy onMutation steps = (.error e, last)) :
    ∃ move, Tracker.mutate last.tracker move = .error e := by
  obtain ⟨-, -, -, -, -, -, move, -, -, -, hmove⟩ := cutOff_of_mix (congrArg Prod.fst h)
  rw [h] at hmove
  exact ⟨move, hmove⟩

/-! ## Where mixing is cut off -/

namespace Population

/-- **Where mixing is cut off**: the walkers in front have come to the particles `mixed`, the next
one fails, with the memory and the report that they have handed on, and those behind have not set
out. -/
structure CutOff (policy : Policy τ μ π) (onMutation : Nat → μ → τ → ω → ω) (steps : Nat)
    (s : Mixing τ π ω) (e : Error) where
  front : List (τ × UInt64)
  particle : τ
  seed : UInt64
  behind : List (τ × UInt64)
  mixed : List τ
  memory : π
  report : ω
  last : Walk τ π ω
  walkers : s.population.particles.zip (s.population.seeds.run s.draws).1 =
    front ++ (particle, seed) :: behind
  walked : walkEach policy onMutation steps 0 front s.memory s.report =
    (.ok (), mixed, memory, report)
  failed : Walk.mix policy (onMutation front.length) steps
    ⟨particle, memory, .ofSeed (splitMix seed), report⟩ = (.error e, last)

variable {policy : Policy τ μ π} {onMutation : Nat → μ → τ → ω → ω} {steps : Nat} {e : Error}

/-- The walkers after the cut. -/
def CutOff.particles {s : Mixing τ π ω} (cut : CutOff policy onMutation steps s e) : List τ :=
  cut.mixed ++ cut.last.tracker :: cut.behind.map Prod.fst

/-- Walks in a row that fail are cut off at the first one that does. -/
theorem exists_cut_of_walkEach {walkers : List (τ × UInt64)} :
    ∀ {slot : Nat} {memory : π} {report : ω},
      (walkEach policy onMutation steps slot walkers memory report).1 = .error e →
      ∃ front particle seed behind mixed memory' report' last,
        walkers = front ++ (particle, seed) :: behind ∧
        walkEach policy onMutation steps slot front memory report =
          (.ok (), mixed, memory', report') ∧
        Walk.mix policy (onMutation (slot + front.length)) steps
          ⟨particle, memory', .ofSeed (splitMix seed), report'⟩ = (.error e, last) ∧
        (walkEach policy onMutation steps slot walkers memory report).2.1 =
          mixed ++ last.tracker :: behind.map Prod.fst := by
  induction walkers with
  | nil =>
      intro slot memory report h
      cases h
  | cons walker rest ih =>
      intro slot memory report h
      obtain ⟨particle, seed⟩ := walker
      rcases hmix : Walk.mix policy (onMutation slot) steps
        ⟨particle, memory, .ofSeed (splitMix seed), report⟩ with ⟨result, walk⟩
      cases result with
      | error e' =>
          rw [walkEach, hmix] at h ⊢
          cases h
          exact ⟨[], particle, seed, rest, [], memory, report, walk, rfl, rfl, hmix, rfl⟩
      | ok made =>
          rw [walkEach, hmix] at h ⊢
          obtain ⟨front, particle', seed', behind, mixed, memory', report', last, rfl, hfront,
            hfailed, hparticles⟩ := ih h
          refine ⟨(particle, seed) :: front, particle', seed', behind, walk.tracker :: mixed,
            memory', report', last, rfl, ?_, ?_, congrArg (walk.tracker :: ·) hparticles⟩
          · rw [walkEach, hmix]
            dsimp only
            rw [hfront]
          · rwa [List.length_cons, Nat.add_comm front.length 1, ← Nat.add_assoc]

theorem exists_cutOff {s : Mixing τ π ω} (h : (mixAll policy onMutation steps s).1 = .error e) :
    ∃ cut : CutOff policy onMutation steps s e,
      (mixAll policy onMutation steps s).2.population.particles = cut.particles := by
  obtain ⟨front, particle, seed, behind, mixed, memory, report, last, hwalkers, hwalked, hfailed,
    hparticles⟩ := exists_cut_of_walkEach h
  rw [Nat.zero_add] at hfailed
  exact ⟨⟨front, particle, seed, behind, mixed, memory, report, last, hwalkers, hwalked, hfailed⟩,
    hparticles⟩

namespace CutOff

variable {s : Mixing τ π ω} (cut : CutOff policy onMutation steps s e)

/-- The particles before they set out. -/
theorem particles_before : s.population.particles =
    cut.front.map Prod.fst ++ cut.particle :: cut.behind.map Prod.fst := by
  have hfst := congrArg (List.map Prod.fst) cut.walkers
  rwa [map_fst_zip_seeds, List.map_append] at hfst

theorem length_mixed : cut.mixed.length = cut.front.length := by
  have hlength : (walkEach policy onMutation steps 0 cut.front s.memory s.report).2.1.length =
      cut.front.length := length_walkEach policy onMutation steps
  rwa [cut.walked] at hlength

/-- The cut leaves no trace just when the walks before it have led nowhere. -/
theorem particles_eq_iff : cut.particles = s.population.particles ↔
    cut.mixed = cut.front.map Prod.fst ∧ cut.last.tracker = cut.particle := by
  rw [particles, cut.particles_before]
  constructor
  · intro h
    obtain ⟨hmixed, hrest⟩ := List.append_inj h (by rw [cut.length_mixed, List.length_map])
    exact ⟨hmixed, (List.cons.inj hrest).1⟩
  · rintro ⟨hmixed, hlast⟩
    rw [hmixed, hlast]

end CutOff

end Population

/-! ## Failed rounds -/

open Search Population

/-- **A failed round is cut off in the middle of its walks**, in whatever search steps can reach,
failed ones included. The best particle seen, the threshold, the history, the state and the
schedule's memory stay as they were, and the round counts. Of the particles, which walk one after
the other, those in front of the one that fails have made their walks, that one is left where a move
was refused, and those behind it are left alone. So the population is the one of the last completed
round just when the walks have led nowhere so far. -/
theorem failed_round_is_cut_off {setup : Setup τ μ ν π σ ω} {P : τ → Prop}
    {s s' : Search τ π σ ω} (hs : Reached setup P s) {e : Error}
    (hstep : step setup s = (.error e, s')) :
    s'.bestSeen = s.bestSeen ∧ s'.threshold = s.threshold ∧ s'.history = s.history ∧
    s'.state = s.state ∧ s'.plan = s.plan ∧ s'.round = s.round + 1 ∧
    ∃ cut : CutOff setup.policy setup.observer.onMutation setup.config.walk
        ⟨s.population, s.memory, s.draws, s.report⟩ e,
      s'.population.particles = cut.particles ∧
      (∃ move, Tracker.mutate cut.last.tracker move = .error e) ∧
      (s'.population.particles = s.population.particles ↔
        cut.mixed = cut.front.map Prod.fst ∧ cut.last.tracker = cut.particle) := by
  cases round_of_step hstep with
  | failed _ hwalk =>
      obtain ⟨cut, hparticles⟩ := exists_cutOff hwalk
      have hpopulation : (Search.walked setup s).population.particles = cut.particles := hparticles
      refine ⟨rfl, rfl, rfl, rfl, rfl, rfl, cut, hpopulation, Walk.exists_refused cut.failed, ?_⟩
      rw [hpopulation]
      exact cut.particles_eq_iff
  | overfull _ _ _ hsome hfill =>
      -- survivors of a full population are never too many
      obtain ⟨filling, hfilling⟩ := exists_filling hs.full hsome
      rw [hfilling] at hfill
      cases hfill

/-- One bit under one check. -/
def singleCheck : Code 1 1 where
  elements := #v[[0]]
  constraints := #v[[0]]
  weights := #v[1]

/-- A search of one message. Its first round flips the bit there and back, its second round flips it
and then makes a move that is no bit. -/
def refusedSetup : Setup (Message singleCheck) Nat Bool Nat Unit Unit where
  config := { population := 1, walk := 2, seed := some 7, parallel := false }
  policy := .cyclic [some 0, some 0, some 0, some 5]
  schedule := FixedStepSchedule.schedule ⟨.maximize, .ofNat 10, .ofNat 1, some (.ofInt (-5))⟩
  observer := .silent

theorem exists_refused_round :
    ∃ s₀ s, start refusedSetup 0 () () 0 (Factory.copies (.ok (.zeros singleCheck))) = .ok s₀ ∧
      steps refusedSetup 1 s₀ = .ok s ∧ s.state = .running ∧
      (step refusedSetup s).1 = .error (.indexOutOfRange 5 1) ∧
      s.population.particles = [.ofBits singleCheck #v[false]] ∧
      (step refusedSetup s).2.population.particles = [.ofBits singleCheck #v[true]] := by
  obtain ⟨s₀, s, hstart, hsteps, hview⟩ := exists_steps_of_view refusedSetup
    (start refusedSetup 0 () () 0 (Factory.copies (.ok (.zeros singleCheck)))) 1
    (fun s => (s.state, (step refusedSetup s).1, s.population.particles,
      (step refusedSetup s).2.population.particles))
    (.running, .error (.indexOutOfRange 5 1), [.ofBits singleCheck #v[false]],
      [.ofBits singleCheck #v[true]]) (by decide +kernel)
  simp only [Prod.mk.injEq] at hview
  exact ⟨s₀, s, hstart, hsteps, hview⟩

/-- The message is left between its two moves, and the rest is as it was. -/
theorem failed_round_is_cut_off_refused :
    ∃ s s' : Search (Message singleCheck) Nat Unit Unit, s.state = .running ∧
      step refusedSetup s = (.error (.indexOutOfRange 5 1), s') ∧
      s'.bestSeen = s.bestSeen ∧ s'.threshold = s.threshold ∧ s'.history = s.history ∧
      s'.state = .running ∧ s'.round = s.round + 1 ∧
      ∃ cut : CutOff refusedSetup.policy refusedSetup.observer.onMutation 2
          ⟨s.population, s.memory, s.draws, s.report⟩ (.indexOutOfRange 5 1),
        cut.particles = [.ofBits singleCheck #v[true]] ∧
        ¬(cut.mixed = cut.front.map Prod.fst ∧ cut.last.tracker = cut.particle) := by
  obtain ⟨s₀, s, hstart, hsteps, hrunning, herror, hbefore, hafter⟩ := exists_refused_round
  have hfactory : (Factory.copies (.ok (Message.zeros singleCheck))).Yields Message.Fresh :=
    Factory.copies_yields fun t ht => Except.ok.inj ht ▸ .zeros
  have hreached : Reached refusedSetup Message.Fresh s :=
    (Reached.start hfactory hstart).steps hsteps
  obtain ⟨hbestSeen, hthreshold, hhistory, hstate, -, hround, cut, hparticles, -, hiff⟩ :=
    failed_round_is_cut_off hreached (Prod.ext herror rfl)
  refine ⟨s, (step refusedSetup s).2, hrunning, Prod.ext herror rfl, hbestSeen, hthreshold,
    hhistory, hstate.trans hrunning, hround, cut, hparticles ▸ hafter, ?_⟩
  rw [← hiff, hbefore, hafter]
  decide +kernel

/-- A failed round can change the population. -/
theorem failed_round_changes_population :
    Code.ofChecks 1 #v[[0]] = .ok singleCheck ∧
    ∃ s₀ s, start refusedSetup 0 () () 0 (Factory.copies (.ok (.zeros singleCheck))) = .ok s₀ ∧
      steps refusedSetup 1 s₀ = .ok s ∧ s.state = .running ∧
      (step refusedSetup s).1 = .error (.indexOutOfRange 5 1) ∧
      (step refusedSetup s).2.population.particles ≠ s.population.particles := by
  obtain ⟨s₀, s, hstart, hsteps, hrunning, herror, hbefore, hafter⟩ := exists_refused_round
  refine ⟨by decide +kernel, s₀, s, hstart, hsteps, hrunning, herror, ?_⟩
  rw [hbefore, hafter]
  decide +kernel

end Winners
