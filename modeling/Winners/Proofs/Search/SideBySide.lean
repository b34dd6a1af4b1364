import Winners.Proofs.Search.Population
import Winners.Proofs.Walk.Oblivious

set_option autoImplicit false

/-! # Particles that walk side by side

Mixing seeds a stream of draws for each particle before any of them sets out. The walks of an
oblivious policy have nothing else in common that matters, so their order does not matter: one after
the other in any order, or by turns (`Company.exists_legs`). The policy's memory and the reports
do go from hand to hand, and may differ.
-/

namespace Winners

/-! ## Words of a stream -/

namespace Draws

/-- What is left of a stream after some words. -/
def after : (count : Nat) → Draws → Draws
  | 0, draws => draws
  | count + 1, draws => after count draws.next.2

/-- The word at a position of a stream. -/
def nth (draws : Draws) (i : Nat) : UInt64 := (draws.after i).next.1

end Draws

namespace Population

variable {τ μ ν π ω : Type}

/-- **Mixing draws one word for each particle.** -/
theorem seeds_run (population : Population τ) (draws : Draws) :
    population.seeds.run draws = ((List.range population.particles.length).map draws.nth,
      draws.after population.particles.length) := by
  obtain ⟨particles⟩ := population
  unfold seeds
  induction particles generalizing draws with
  | nil => rfl
  | cons x rest ih =>
      have hrest := ih draws.next.2
      have hwords : (List.range (rest.length + 1)).map draws.nth =
          draws.next.1 :: (List.range rest.length).map draws.next.2.nth := by
        rw [List.range_succ_eq_map, List.map_cons, List.map_map]
        rfl
      show ((x :: rest).mapM fun _ => Sampler.word).run draws = _
      rw [List.mapM_cons, Sampler.run_bind, Sampler.run_bind, Sampler.run_pure]
      show (draws.next.1 :: ((rest.mapM fun _ => Sampler.word).run draws.next.2).1,
        ((rest.mapM fun _ => Sampler.word).run draws.next.2).2) = _
      rw [hrest, List.length_cons, hwords]
      rfl

/-- Each particle gets the word at its own position. -/
theorem getElem?_zip_seeds (population : Population τ) (draws : Draws) (i : Nat) :
    (population.particles.zip (population.seeds.run draws).1)[i]? =
      population.particles[i]?.map fun x => (x, draws.nth i) := by
  rw [seeds_run, List.zip, List.getElem?_zipWith', List.getElem?_map]
  by_cases h : i < population.particles.length
  · rw [List.getElem?_range h, List.getElem?_eq_getElem h]
    rfl
  · rw [List.getElem?_eq_none (Nat.not_lt.mp h)]
    rfl

/-- The particles that set out, each with a stream of its own. -/
def walkers (s : Mixing τ π ω) : List (τ × Draws) :=
  (s.population.particles.zip (s.population.seeds.run s.draws).1).map fun w =>
    (w.1, .ofSeed (splitMix w.2))

theorem getElem?_walkers (s : Mixing τ π ω) (i : Nat) :
    (walkers s)[i]? = s.population.particles[i]?.map fun x =>
      (x, .ofSeed (splitMix (s.draws.nth i))) := by
  rw [walkers, List.getElem?_map, getElem?_zip_seeds, Option.map_map]
  rfl

theorem length_walkers (s : Mixing τ π ω) : (walkers s).length = s.population.particles.length := by
  rw [walkers, seeds_run, List.length_map, List.length_zip, List.length_map, List.length_range,
    Nat.min_self]

end Population

/-! ## Walks in any order -/

/-- Particles that are on their way, each with what is left of its stream. -/
structure Company (τ π ω : Type) where
  walkers : List (τ × Draws)
  memory : π
  report : ω

namespace Company

variable {τ μ ν π ω : Type} [Tracker τ μ ν]

/-- The particles as they stand. -/
def population (c : Company τ π ω) : Population τ := ⟨c.walkers.map Prod.fst⟩

/-- Lets the particle of a slot walk some steps; a slot that is not there is passed over. -/
def leg (policy : Policy τ μ π) (onMutation : Nat → μ → τ → ω → ω) (c : Company τ π ω)
    (turn : Nat × Nat) : Except Error (Company τ π ω) :=
  match c.walkers[turn.1]? with
  | none => .ok c
  | some (tracker, draws) =>
      let walk : Walk τ π ω := ⟨tracker, c.memory, draws, c.report⟩
      match walk.mix policy (onMutation turn.1) turn.2 with
      | (.error e, _) => .error e
      | (.ok _, walk) => .ok ⟨c.walkers.set turn.1 walk.walker, walk.memory, walk.report⟩

/-- Lets the particles walk by turns. A turn is a slot and a number of steps. -/
def legs (policy : Policy τ μ π) (onMutation : Nat → μ → τ → ω → ω) (turns : List (Nat × Nat))
    (c : Company τ π ω) : Except Error (Company τ π ω) :=
  turns.foldlM (leg policy onMutation) c

/-- The number of steps that turns have for a slot. -/
def share (slot : Nat) : List (Nat × Nat) → Nat
  | [] => 0
  | turn :: turns => if turn.1 = slot then turn.2 + share slot turns else share slot turns

variable {policy : Policy τ μ π} (onMutation : Nat → μ → τ → ω → ω)

theorem leg_of_none {c : Company τ π ω} {turn : Nat × Nat} (h : c.walkers[turn.1]? = none) :
    leg policy onMutation c turn = .ok c := by
  rw [leg, h]

/-- A turn takes its particle on and leaves the others where they are. -/
theorem exists_leg {c : Company τ π ω} {turn : Nat × Nat} {w u : τ × Draws}
    (hw : c.walkers[turn.1]? = some w) (hstroll : policy.Strolls turn.2 w u) :
    ∃ next, leg policy onMutation c turn = .ok next ∧ next.walkers = c.walkers.set turn.1 u := by
  obtain ⟨made, walk, hmix, hwalker⟩ := hstroll.mix (onMutation turn.1)
    ⟨w.1, c.memory, w.2, c.report⟩ rfl
  rw [leg, hw]
  dsimp only
  rw [hmix]
  exact ⟨_, rfl, by rw [hwalker]⟩

/-- **Turns take every particle as far as its share goes**, however they are mixed. -/
theorem exists_legs {finals : List (τ × Draws)} (turns : List (Nat × Nat)) :
    ∀ {c : Company τ π ω}, finals.length = c.walkers.length →
      (∀ slot w f, c.walkers[slot]? = some w → finals[slot]? = some f →
        policy.Strolls (share slot turns) w f) →
      ∃ last, c.legs policy onMutation turns = .ok last ∧ last.walkers = finals := by
  induction turns with
  | nil =>
      intro c hlength hstrolls
      refine ⟨c, rfl, List.ext_getElem hlength.symm ?_⟩
      intro slot hslot hslot'
      exact Policy.eq_of_strolls_zero (hstrolls slot _ _ (List.getElem?_eq_getElem hslot)
        (List.getElem?_eq_getElem hslot'))
  | cons turn turns ih =>
      intro c hlength hstrolls
      rw [legs, List.foldlM_cons]
      cases hw : c.walkers[turn.1]? with
      | none =>
          rw [leg_of_none onMutation hw]
          apply ih hlength
          intro slot w f hslot hf
          have hne : turn.1 ≠ slot := by
            rintro rfl
            rw [hw] at hslot
            cases hslot
          have hstroll := hstrolls slot w f hslot hf
          rwa [share, if_neg hne] at hstroll
      | some w =>
          -- the walk of this slot is cut in two, and the turn is its first part
          obtain ⟨hslot, -⟩ := List.getElem?_eq_some_iff.mp hw
          have hf := List.getElem?_eq_getElem (hlength ▸ hslot : turn.1 < finals.length)
          have hstroll := hstrolls turn.1 w _ hw hf
          rw [share, if_pos rfl] at hstroll
          obtain ⟨u, hfirst, hmore⟩ := hstroll.split
          obtain ⟨next, hnext, hwalkers⟩ := exists_leg onMutation hw hfirst
          rw [hnext]
          apply ih
          · rw [hwalkers, List.length_set, hlength]
          · intro slot w' f' hw' hf'
            rw [hwalkers] at hw'
            by_cases hsame : turn.1 = slot
            · cases hsame
              rw [List.getElem?_set_self hslot] at hw'
              cases hw'
              rw [hf] at hf'
              cases hf'
              exact hmore
            · rw [List.getElem?_set_ne hsame] at hw'
              have hrest := hstrolls slot w' f' hw' hf'
              rwa [share, if_neg hsame] at hrest

theorem share_map (slot steps : Nat) (order : List Nat) :
    share slot (order.map (·, steps)) = order.count slot * steps := by
  induction order with
  | nil => exact (Nat.zero_mul steps).symm
  | cons next order ih =>
      rw [List.map_cons, share, ih, List.count_cons]
      by_cases hslot : next = slot
      · rw [if_pos hslot, if_pos (beq_iff_eq.mpr hslot), Nat.add_mul, Nat.one_mul, Nat.add_comm]
      · rw [if_neg hslot, if_neg (mt beq_iff_eq.mp hslot), Nat.add_zero]

end Company

/-! ## Mixing -/

namespace Population

variable {τ μ ν π ω : Type} [Tracker τ μ ν] {policy : Policy τ μ π}

theorem walkEach_of_strolls (onMutation : Nat → μ → τ → ω → ω) {steps : Nat}
    {walkers : List (τ × UInt64)} {finals : List (τ × Draws)}
    (h : List.Forall₂ (fun w f => policy.Strolls steps (w.1, .ofSeed (splitMix w.2)) f)
      walkers finals) : ∀ (slot : Nat) (memory : π) (report : ω),
      (walkEach policy onMutation steps slot walkers memory report).1 = .ok () ∧
      (walkEach policy onMutation steps slot walkers memory report).2.1 = finals.map Prod.fst := by
  induction h with
  | nil =>
      intro slot memory report
      exact ⟨rfl, rfl⟩
  | @cons w f walkers finals hstroll _ ih =>
      intro slot memory report
      obtain ⟨made, walk, hmix, hwalker⟩ := hstroll.mix (onMutation slot)
        ⟨w.1, memory, .ofSeed (splitMix w.2), report⟩ rfl
      obtain ⟨hok, hparticles⟩ := ih (slot + 1) walk.memory walk.report
      rw [walkEach, hmix]
      dsimp only
      refine ⟨hok, ?_⟩
      rw [hparticles, List.map_cons, ← hwalker]
      rfl

/-- A particle that walks by itself, with nobody watching. -/
def alone (policy : Policy τ μ π) (steps : Nat) (memory : π) (w : τ × Draws) :
    Except Error Nat × Walk τ π Unit :=
  Walk.mix policy (fun _ _ report => report) steps ⟨w.1, memory, w.2, ()⟩

/-- All particles before their first step. -/
def company (s : Mixing τ π ω) : Company τ π ω := ⟨walkers s, s.memory, s.report⟩

/-- Turns that bring the particles to where mixing brings them. -/
def MixedBy (policy : Policy τ μ π) (onMutation : Nat → μ → τ → ω → ω) (steps : Nat)
    (s : Mixing τ π ω) (turns : List (Nat × Nat)) : Prop :=
  ∃ last, (company s).legs policy onMutation turns = .ok last ∧
    last.population = (mixAll policy onMutation steps s).2.population

/-- **Mixing in any order.** One word is drawn for each particle, and each of them ends where it
would end by itself on the stream of its word. So it does if the walks are made in another order, or
step by step in any order, or by any turns of any length that give each particle its steps. -/
structure MixesInAnyOrder (policy : Policy τ μ π) (onMutation : Nat → μ → τ → ω → ω) (steps : Nat)
    (s : Mixing τ π ω) : Prop where
  succeeds : (mixAll policy onMutation steps s).1 = .ok ()
  draws : (mixAll policy onMutation steps s).2.draws =
    s.draws.after s.population.particles.length
  particle : ∀ i memory, (mixAll policy onMutation steps s).2.population.particles[i]? =
    s.population.particles[i]?.map fun x =>
      (alone policy steps memory (x, .ofSeed (splitMix (s.draws.nth i)))).2.tracker
  wholeWalks : ∀ order : List Nat, order.Perm (List.range s.population.particles.length) →
    MixedBy policy onMutation steps s (order.map (·, steps))
  singleSteps : ∀ order : List Nat,
    (∀ slot < s.population.particles.length, order.count slot = steps) →
      MixedBy policy onMutation steps s (order.map (·, 1))
  turns : ∀ turns, (∀ slot < s.population.particles.length, Company.share slot turns = steps) →
    MixedBy policy onMutation steps s turns

/-- Where the particles end by themselves. -/
def ends (policy : Policy τ μ π) (steps : Nat) (s : Mixing τ π ω) : List (τ × Draws) :=
  (walkers s).map fun w => (alone policy steps s.memory w).2.walker

section

variable {steps : Nat} {s : Mixing τ π ω}
  (hstrolls : ∀ w ∈ walkers s, policy.Strolls steps w (alone policy steps s.memory w).2.walker)
  (onMutation : Nat → μ → τ → ω → ω)

include hstrolls

theorem mixAll_of_strolls : (mixAll policy onMutation steps s).1 = .ok () ∧
    (mixAll policy onMutation steps s).2.population.particles =
      (ends policy steps s).map Prod.fst := by
  have hends : List.Forall₂ (policy.Strolls steps) (walkers s) (ends policy steps s) :=
    List.forall₂_map_right_iff.mpr (List.forall₂_same.mpr hstrolls)
  exact walkEach_of_strolls onMutation (List.forall₂_map_left_iff.mp hends) 0 s.memory s.report

theorem mixedBy_of_share {turns : List (Nat × Nat)}
    (hturns : ∀ slot < s.population.particles.length, Company.share slot turns = steps) :
    MixedBy policy onMutation steps s turns := by
  have hlength : (ends policy steps s).length = (company s).walkers.length := List.length_map _
  obtain ⟨last, hlast, hwalkers⟩ := Company.exists_legs onMutation turns hlength (by
    intro slot w f hw hf
    obtain ⟨hslot, hget⟩ := List.getElem?_eq_some_iff.mp hw
    rw [hturns slot (length_walkers s ▸ hslot)]
    rw [ends, List.getElem?_map, show (walkers s)[slot]? = some w from hw] at hf
    cases hf
    exact hstrolls w (hget ▸ List.getElem_mem _))
  refine ⟨last, hlast, ?_⟩
  rw [Company.population, hwalkers, ← (mixAll_of_strolls hstrolls onMutation).2]

theorem mixesInAnyOrder_of_strolls : MixesInAnyOrder policy onMutation steps s where
  succeeds := (mixAll_of_strolls hstrolls onMutation).1
  draws := by
    show (s.population.seeds.run s.draws).2 = _
    rw [seeds_run]
  particle := by
    intro i memory
    rw [(mixAll_of_strolls hstrolls onMutation).2, ends, List.map_map, List.getElem?_map,
      getElem?_walkers, Option.map_map]
    apply Option.map_congr
    intro x hx
    have hw : (x, Draws.ofSeed (splitMix (s.draws.nth i))) ∈ walkers s := by
      apply List.mem_of_getElem? (i := i)
      rw [getElem?_walkers, hx]
      rfl
    -- what the policy remembers makes no difference to a stroll
    obtain ⟨made, walk, hmix, hwalker⟩ := (hstrolls _ hw).mix (fun _ _ report => report)
      ⟨x, memory, .ofSeed (splitMix (s.draws.nth i)), ()⟩ rfl
    show (alone policy steps s.memory _).2.walker.1 = (alone policy steps memory _).2.tracker
    rw [← hwalker, alone, hmix]
    rfl
  wholeWalks := by
    intro order horder
    apply mixedBy_of_share hstrolls
    intro slot hslot
    have hcount : order.count slot = 1 := by
      rw [horder.count_eq, List.count_eq_one_of_mem List.nodup_range (List.mem_range.mpr hslot)]
    rw [Company.share_map, hcount, Nat.one_mul]
  singleSteps := by
    intro order horder
    apply mixedBy_of_share hstrolls
    intro slot hslot
    rw [Company.share_map, Nat.mul_one, horder slot hslot]
  turns _ hturns := mixedBy_of_share hstrolls onMutation hturns

end

/-- Mixing under an oblivious policy, if no particle fails to walk by itself. -/
theorem mixesInAnyOrder (h : policy.Oblivious) (onMutation : Nat → μ → τ → ω → ω) {steps : Nat}
    {s : Mixing τ π ω} (hwalks : ∀ i x, s.population.particles[i]? = some x → ∃ made walk,
      alone policy steps s.memory (x, .ofSeed (splitMix (s.draws.nth i))) = (.ok made, walk)) :
    MixesInAnyOrder policy onMutation steps s := by
  apply mixesInAnyOrder_of_strolls
  intro w hw
  obtain ⟨i, hi⟩ := List.mem_iff_getElem?.mp hw
  rw [getElem?_walkers] at hi
  obtain ⟨x, hx, rfl⟩ := Option.map_eq_some_iff.mp hi
  obtain ⟨made, walk, hwalk⟩ := hwalks i x hx
  rw [hwalk]
  exact h.strolls hwalk

theorem mixesInAnyOrder_of_legal (h : policy.Oblivious) (hlegal : policy.Legal)
    (onMutation : Nat → μ → τ → ω → ω) (steps : Nat) (s : Mixing τ π ω) :
    MixesInAnyOrder policy onMutation steps s :=
  mixesInAnyOrder h onMutation fun _ _ _ => Walk.exists_mix hlegal _ steps _

end Population

open Population

/-- **Mixing does not depend on the order of the walks.** This is so for every population and every
policy whose steps depend on the tracker and the draws only, if none of the walks fails. The
policies that come with the library are such, and their walks do not fail. -/
theorem mixing_in_any_order {π ω : Type} :
    (∀ {τ μ ν : Type} [Tracker τ μ ν] {policy : Policy τ μ π} (onMutation : Nat → μ → τ → ω → ω)
      {steps : Nat} {s : Mixing τ π ω}, policy.Oblivious →
      (∀ i x, s.population.particles[i]? = some x → ∃ made walk,
        alone policy steps s.memory (x, .ofSeed (splitMix (s.draws.nth i))) = (.ok made, walk)) →
      MixesInAnyOrder policy onMutation steps s) ∧
    (∀ {n : Nat} {G : Graph n} {policy : Policy (VertexSubset G) Nat π}
      (onMutation : Nat → Nat → VertexSubset G → ω → ω) (steps : Nat)
      (s : Mixing (VertexSubset G) π ω), VertexSubset.Shipped policy →
      MixesInAnyOrder policy onMutation steps s) ∧
    (∀ {n : Nat} {G : Graph n} (onMutation : Nat → Recolor → Coloring G → ω → ω) (steps : Nat)
      (s : Mixing (Coloring G) π ω), MixesInAnyOrder .randomRecolor onMutation steps s) ∧
    (∀ {n m : Nat} {C : Code n m} (onMutation : Nat → Nat → Message C → ω → ω) (steps : Nat)
      (s : Mixing (Message C) π ω), MixesInAnyOrder .uniformFlip onMutation steps s) := by
  refine ⟨?_, ?_, ?_, ?_⟩
  · intro τ μ ν _ policy onMutation steps s hpolicy hwalks
    exact mixesInAnyOrder hpolicy onMutation hwalks
  · intro n G policy onMutation steps s hpolicy
    exact mixesInAnyOrder_of_legal hpolicy.oblivious hpolicy.legal onMutation steps s
  · intro n G onMutation steps s
    exact mixesInAnyOrder_of_legal (Policy.oblivious_ofSampler _) Policy.legal_randomRecolor
      onMutation steps s
  · intro n m C onMutation steps s
    exact mixesInAnyOrder_of_legal (Policy.oblivious_ofSampler _)
      Policy.legal_uniformFlip_message onMutation steps s

/-- Two messages that are about to walk. -/
def twoMessages : Mixing (Message overlappingChecks) Unit Unit where
  population := ⟨[.zeros overlappingChecks, .ofBits overlappingChecks #v[true, false, false]]⟩
  memory := ()
  draws := .ofSeed 1
  report := ()

/-- Two messages make two steps each: the second one first, or the first one between the steps of
the second. A swap walk on a path is as free as they are. -/
theorem mixing_in_any_order_small :
    (mixAll .uniformFlip (fun _ _ _ report => report) 2 twoMessages).2.draws =
      twoMessages.draws.next.2.next.2 ∧
    MixedBy .uniformFlip (fun _ _ _ report => report) 2 twoMessages [(1, 2), (0, 2)] ∧
    MixedBy .uniformFlip (fun _ _ _ report => report) 2 twoMessages
      [(1, 1), (0, 1), (0, 1), (1, 1)] ∧
    MixedBy .uniformFlip (fun _ _ _ report => report) 2 twoMessages [(1, 1), (0, 2), (1, 1)] ∧
    MixesInAnyOrder .swapWalk (fun _ _ _ report => report) 5
      (⟨⟨[VertexSubset.ofVertices (Graph.path 3) [0]]⟩, (), .ofSeed 1, ()⟩ :
        Mixing _ Unit Unit) := by
  obtain ⟨hgeneral, hsubset, -, -⟩ := @mixing_in_any_order Unit Unit
  have hmixes : MixesInAnyOrder .uniformFlip (fun _ _ _ report => report) 2 twoMessages :=
    hgeneral _ (Policy.oblivious_ofSampler _) fun _ _ _ =>
      Walk.exists_mix Policy.legal_uniformFlip_message _ 2 _
  refine ⟨hmixes.draws, hmixes.wholeWalks [1, 0] (by decide), ?_, ?_, ?_⟩
  · exact hmixes.singleSteps [1, 0, 0, 1] (by decide)
  · exact hmixes.turns _ (by decide)
  · exact hsubset _ 5 _ .swapWalk

end Winners
