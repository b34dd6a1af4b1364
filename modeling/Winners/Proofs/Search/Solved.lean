import Winners.Proofs.Code.Weight
import Winners.Proofs.Search.Reached
import Winners.Proofs.Threshold.Order
import Winners.Proofs.Tracker.Coloring
import Winners.Proofs.Tracker.Density
import Winners.Proofs.Tracker.Message

set_option autoImplicit false

/-! # A search that succeeds has solved its problem

The fitness of a tracker is a rounded function of its cached score. For the goals that stand for
a solution rounding does no harm: a fitness of zero is the score zero, and a fitness of the
total weight is the total weight, as long as this is at most `2 ^ 53`. Caches being exact, such a
tracker is a solution from scratch. After a success every particle passes a threshold that
is at the goal (`Search.Reached.success`), so all of them are solutions
(`succeeded_search_is_solved`).
-/

namespace Winners

open Binary64

/-! ## Colourings -/

/-- A reachable colouring whose fitness is not above zero is proper. -/
theorem Coloring.solved_of_fitness_le_zero {n : Nat} {G : Graph n} (hG : G.Simple)
    {C : Coloring G} (hC : Tracker.Reachable Coloring.Fresh C)
    (hfitness : Tracker.fitness C ≤ Binary64.zero) :
    C.isProper = true ∧ Tracker.scoreFromScratch C = 0 := by
  have hconflicts := conflicts_of_reachable hG hC
  have hzero : conflictCount G C.colors = 0 := by
    by_contra hpos
    have hle : ofInt C.conflicts ≤ Binary64.zero := hfitness
    rw [hconflicts] at hle
    exact not_le_of_lt (zero_lt_ofNat (Nat.pos_of_ne_zero hpos)) hle
  refine ⟨?_, ?_⟩
  · rw [isProper, hconflicts, hzero]
    rfl
  · show (conflictCount G C.colors : Int) = 0
    rw [hzero]
    rfl

/-! ## Vertex subsets -/

namespace VertexSubset

variable {n : Nat} {G : Graph n} {S : VertexSubset G}

/-- A reachable subset whose fitness is not above zero is independent. -/
theorem solved_of_fitness_le_zero (hG : G.Simple) (hn : n < 2 ^ 64)
    (hS : Tracker.Reachable VertexSubset.Fresh S)
    (hfitness : Tracker.fitness S ≤ Binary64.zero) :
    G.isIndependent (S.members.map Fin.val) = true := by
  have hexact := exact_of_reachable hG hS
  exact (isIndependent_members_iff hG hexact).mpr
    ((hexact.density_le_zero_iff hG hn).mp hfitness)

end VertexSubset

/-! ## Messages -/

/-- A reachable message whose fitness is at least the total weight is a codeword. -/
theorem Message.solved_of_totalWeight_le_fitness {n m : Nat} {C : Code n m} (hC : C.Dual)
    (hweight : C.totalWeight ≤ 2 ^ 53) {x : Message C}
    (hx : Tracker.Reachable Message.Fresh x) (hfitness : ofInt C.totalWeight ≤ Tracker.fitness x) :
    x.isCodeword = true ∧ ∀ c, C.satisfies x.bits.get c = true := by
  have hscore := score_of_reachable hC hx
  have hnonneg := Code.satisfiedWeight_nonneg hC x.bits.get
  have hle := Code.satisfiedWeight_le hC x.bits.get
  obtain ⟨score, hscore'⟩ := Int.eq_ofNat_of_zero_le hnonneg
  obtain ⟨total, htotal⟩ := Int.eq_ofNat_of_zero_le (hnonneg.trans hle)
  have hfit : ofInt C.totalWeight ≤ ofInt x.score := hfitness
  rw [hscore, hscore', htotal] at hfit
  -- this is where rounding has to keep the order
  have hreach : total ≤ score := (ofNat_le_ofNat_iff (by omega) (by omega)).mp hfit
  have heq : C.satisfiedWeight x.bits.get = C.totalWeight := by omega
  refine ⟨?_, (Code.satisfiedWeight_eq_totalWeight_iff hC _).mp heq⟩
  rw [isCodeword, hscore, heq]
  exact beq_self_eq_true _

/-! ## Success -/

namespace Search

variable {τ μ ν π σ ω : Type} [Tracker τ μ ν] {setup : Setup τ μ ν π σ ω} {P Solution : τ → Prop}

/-- Every particle of a search is a solution. There is an outcome, and its best tracker is one
too. -/
structure Solves (setup : Setup τ μ ν π σ ω) (Solution : τ → Prop) (s : Search τ π σ ω) :
    Prop where
  particles : ∀ x ∈ s.population.particles, Solution x
  best : ∃ outcome report, finish setup s = .ok (outcome, report) ∧ outcome.succeeded = true ∧
    Solution outcome.best

/-- A search that succeeds has solved the problem whose solutions are the trackers that pass the
goal. -/
theorem Reached.solves (hP : Tracker.Kept P)
    (hsolution : ∀ x, P x →
      setup.schedule.direction.passes (Tracker.fitness x) setup.schedule.goal = true → Solution x)
    {s : Search τ π σ ω} (h : Reached setup P s) (hs : s.state = .succeeded) :
    Solves setup Solution s := by
  have hsuccess := h.success hs
  have hall : ∀ x ∈ s.population.particles, Solution x := by
    intro x hx
    apply hsolution x ((h.trackers (hP.keeps _)).particles x hx)
    exact Direction.passes_trans (hsuccess.passes x hx) hsuccess.reached
  obtain ⟨best, hmem, hbest⟩ :=
    Population.exists_best setup.schedule.direction hsuccess.nonempty
  refine ⟨hall, ?_⟩
  rw [finish, hbest]
  exact ⟨_, _, rfl, by rw [Outcome.succeeded, hs]; rfl, hall best hmem⟩

end Search

open Search

/-- **A search that succeeds has solved its problem**, whatever its policy, schedule, observer,
seed and population, and however many steps it took. For colourings and vertex subsets the problem
is to bring the fitness down to zero, for messages to bring it up to the total weight. The
vertices of a graph are counted by a 64-bit word. -/
theorem succeeded_search_is_solved {π σ ω : Type} :
    (∀ {n : Nat} {G : Graph n} {setup : Setup (Coloring G) Recolor Nat π σ ω}
      {s : Search (Coloring G) π σ ω}, G.Constructed →
      setup.schedule.direction = .minimize → setup.schedule.goal ≤ Binary64.zero →
      Reached setup (Tracker.Reachable Coloring.Fresh) s → s.state = .succeeded →
      Solves setup (fun x => x.isProper = true ∧ Tracker.scoreFromScratch x = 0) s) ∧
    (∀ {n : Nat} {G : Graph n} {setup : Setup (VertexSubset G) Nat Bool π σ ω}
      {s : Search (VertexSubset G) π σ ω}, G.Constructed → n < 2 ^ 64 →
      setup.schedule.direction = .minimize → setup.schedule.goal ≤ Binary64.zero →
      Reached setup (Tracker.Reachable VertexSubset.Fresh) s → s.state = .succeeded →
      Solves setup (fun x => G.isIndependent (x.members.map Fin.val) = true) s) ∧
    (∀ {n m : Nat} {C : Code n m} {setup : Setup (Message C) Nat Bool π σ ω}
      {s : Search (Message C) π σ ω}, C.Constructed → C.totalWeight ≤ 2 ^ 53 →
      setup.schedule.direction = .maximize → ofInt C.totalWeight ≤ setup.schedule.goal →
      Reached setup (Tracker.Reachable Message.Fresh) s → s.state = .succeeded →
      Solves setup (fun x => x.isCodeword = true ∧ ∀ c, C.satisfies x.bits.get c = true) s) := by
  refine ⟨?_, ?_, ?_⟩
  · intro n G setup s hG hdirection hgoal hreached hs
    refine hreached.solves (Tracker.kept_reachable _) ?_ hs
    intro x hx hpasses
    rw [hdirection, Direction.passes, decide_eq_true_eq] at hpasses
    exact Coloring.solved_of_fitness_le_zero hG.simple hx (le_trans hpasses hgoal)
  · intro n G setup s hG hn hdirection hgoal hreached hs
    refine hreached.solves (Tracker.kept_reachable _) ?_ hs
    intro x hx hpasses
    rw [hdirection, Direction.passes, decide_eq_true_eq] at hpasses
    exact VertexSubset.solved_of_fitness_le_zero hG.simple hn hx (le_trans hpasses hgoal)
  · intro n m C setup s hC hweight hdirection hgoal hreached hs
    refine hreached.solves (Tracker.kept_reachable _) ?_ hs
    intro x hx hpasses
    rw [hdirection, Direction.passes, decide_eq_true_eq] at hpasses
    exact Message.solved_of_totalWeight_le_fitness hC.dual hweight hx (le_trans hgoal hpasses)

/-- The state after some steps of a search, if the search could be built. -/
def Search.stateAfter {τ μ ν π σ ω : Type} [Tracker τ μ ν] (setup : Setup τ μ ν π σ ω) :
    Nat → Except Error (Search τ π σ ω) → Option SearchState
  | _, .error _ => none
  | 0, .ok s => some s.state
  | count + 1, .ok s => stateAfter setup count (.ok (step setup s).2)

theorem Search.exists_reached_of_stateAfter {τ μ ν π σ ω : Type} [Tracker τ μ ν]
    {setup : Setup τ μ ν π σ ω} {P : τ → Prop} {state : SearchState} (count : Nat) :
    ∀ {built : Except Error (Search τ π σ ω)}, (∀ s, built = .ok s → Reached setup P s) →
      stateAfter setup count built = some state → ∃ s, Reached setup P s ∧ s.state = state := by
  induction count with
  | zero =>
      intro built hbuilt hstate
      cases built with
      | error e => cases hstate
      | ok s => exact ⟨s, hbuilt s rfl, Option.some.inj hstate⟩
  | succ count ih =>
      intro built hbuilt hstate
      cases built with
      | error e => cases hstate
      | ok s =>
          refine ih ?_ hstate
          intro s' hs'
          cases hs'
          exact (hbuilt s rfl).step

/-- The factory of identical particles. -/
def Factory.copies {τ : Type} (made : Except Error τ) : Factory τ := fun _ => StateT.lift made

theorem Factory.copies_yields {τ : Type} {made : Except Error τ} {P : τ → Prop}
    (h : ∀ t, made = .ok t → P t) : (Factory.copies made).Yields P := by
  intro slot draws t draws' hrun
  obtain ⟨t', ht', hpair⟩ := bind_eq_ok.mp hrun
  cases hpair
  exact h _ ht'

/-- A search of four particles that walk one step in each round. -/
def smallSetup {τ μ ν : Type} (policy : Policy τ μ Unit) (schedule : Schedule Unit) :
    Setup τ μ ν Unit Unit Unit where
  config := { population := 4, walk := 1, seed := some 7 }
  policy
  schedule
  observer := .silent

/-- Such a search of identical particles. -/
def smallSearch {τ μ ν : Type} [Tracker τ μ ν] (policy : Policy τ μ Unit)
    (schedule : Schedule Unit) (made : Except Error τ) : Except Error (Search τ Unit Unit Unit) :=
  start (smallSetup policy schedule) () () () 0 (Factory.copies made)

theorem exists_reached_small {τ μ ν : Type} [Tracker τ μ ν] {policy : Policy τ μ Unit}
    {schedule : Schedule Unit} {fresh : τ → Prop} {state : SearchState} (made : Except Error τ)
    (hmade : ∀ t, made = .ok t → fresh t) (count : Nat)
    (h : stateAfter (smallSetup policy schedule) count (smallSearch policy schedule made) =
      some state) :
    ∃ s, Reached (smallSetup policy schedule) (Tracker.Reachable fresh) s ∧ s.state = state := by
  refine exists_reached_of_stateAfter count ?_ h
  intro s hs
  exact .start (Factory.copies_yields fun t ht => .of_start (hmade t ht)) hs

/-- Two conflicts are to go at once. -/
def properColoring : FixedStepSchedule := ⟨.minimize, .zero, .ofNat 2, some (.ofNat 2)⟩

/-- All of a density of one is to go at once. -/
def independentSet : FractionSchedule := ⟨.minimize, .zero, .ofNat 1, some (.ofNat 1)⟩

/-- Both checks of `overlappingChecks` are to be satisfied at once. -/
def codeword : FixedStepSchedule := ⟨.maximize, .ofInt 7, .ofNat 7, some .zero⟩

/-- A path of three vertices in one of two colours, a path in which two neighbours are members,
and a codeword with one bit wrong are solved in a round each. -/
theorem succeeded_search_is_solved_small :
    (∃ s, s.state = .succeeded ∧ Solves (smallSetup .randomRecolor properColoring.schedule)
      (fun x : Coloring (Graph.path 3) => x.isProper = true ∧ Tracker.scoreFromScratch x = 0) s) ∧
    (∃ s, s.state = .succeeded ∧ Solves (smallSetup .uniformFlip independentSet.schedule)
      (fun x : VertexSubset (Graph.path 3) =>
        (Graph.path 3).isIndependent (x.members.map Fin.val) = true) s) ∧
    (∃ s, s.state = .succeeded ∧ Solves (smallSetup .uniformFlip codeword.schedule)
      (fun x : Message overlappingChecks =>
        x.isCodeword = true ∧ ∀ c, overlappingChecks.satisfies x.bits.get c = true) s) := by
  obtain ⟨hcoloring, hsubset, hmessage⟩ := @succeeded_search_is_solved Unit Unit Unit
  refine ⟨?_, ?_, ?_⟩
  · obtain ⟨s, hreached, hs⟩ := exists_reached_small (Coloring.uniform (Graph.path 3) 2)
      (fun _ h => Coloring.Fresh.uniform h) 1
      (show stateAfter (smallSetup .randomRecolor properColoring.schedule) 1 _ =
        some .succeeded by decide +kernel)
    exact ⟨s, hs, hcoloring (.path 3) rfl (by decide +kernel) hreached hs⟩
  · obtain ⟨s, hreached, hs⟩ := exists_reached_small
      (VertexSubset.ofList (Graph.path 3) [0, 1]) (fun _ h => VertexSubset.Fresh.ofList h) 1
      (show stateAfter (smallSetup .uniformFlip independentSet.schedule) 1 _ =
        some .succeeded by decide +kernel)
    exact ⟨s, hs, hsubset (.path 3) (by decide) rfl (by decide +kernel) hreached hs⟩
  · obtain ⟨s, hreached, hs⟩ := exists_reached_small
      (Message.ofList overlappingChecks [true, false, false])
      (fun _ h => Message.Fresh.ofList h) 1
      (show stateAfter (smallSetup .uniformFlip codeword.schedule) 1 _ =
        some .succeeded by decide +kernel)
    exact ⟨s, hs, hmessage constructed_overlappingChecks (by decide +kernel) rfl
      (by decide +kernel) hreached hs⟩

end Winners
