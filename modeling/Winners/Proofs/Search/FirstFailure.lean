import Winners.Proofs.Search.SideBySide
import Winners.Proofs.Walk.Journal

set_option autoImplicit false

/-! # Mixing stops at the first failure

The particles walk one after the other, each from its own state on the stream of its own seed
(`Population.ownWalk`). Mixing goes as far as the first of these walks that fails
(`Population.Stops`): its error is the one returned, the particles in front have made their walks,
it stands where its own walk has left it, and those behind it have not moved. One word has been
drawn for each particle all the same, since this is done before any of them sets out.

A policy with a memory hands it on from walk to walk, so a walk may depend on those in front of it.
For an oblivious policy it does not, and each own walk is the one that the particle makes when it is
alone.
-/

namespace Winners

namespace Population

/-! ## Up to the first failure -/

section

variable {τ : Type}

/-- **What comes of walks that are made up to the first that fails.** An entry of `own` is the
result of a walk with the tracker that it ends at; each walk is made by one of the trackers
`before`. -/
structure Stops (own : List (Except Error Nat × τ)) (before : List τ)
    (result : Except Error Unit) (after : List τ) : Prop where
  succeeds : result = .ok () ↔ ∀ w ∈ own, ∃ made, w.1 = .ok made
  all : result = .ok () → after = own.map Prod.snd
  first : ∀ e, result = .error e → ∃ k last, own[k]? = some (.error e, last) ∧
    (∀ w ∈ own.take k, ∃ made, w.1 = .ok made) ∧
    after = (own.take k).map Prod.snd ++ last :: before.drop (k + 1)

namespace Stops

variable {own : List (Except Error Nat × τ)} {before after : List τ} {result : Except Error Unit}

theorem nil : Stops ([] : List (Except Error Nat × τ)) [] (.ok ()) [] where
  succeeds := iff_of_true rfl (List.forall_mem_nil _)
  all _ := rfl
  first e h := by cases h

/-- A walk that fails is the last one. -/
theorem refused (own : List (Except Error Nat × τ)) (before : List τ) (e : Error) (x last : τ) :
    Stops ((.error e, last) :: own) (x :: before) (.error e) (last :: before) where
  succeeds := by
    constructor
    · intro h
      cases h
    · intro h
      obtain ⟨made, hmade⟩ := h _ List.mem_cons_self
      cases hmade
  all h := by cases h
  first e' h := by
    cases h
    exact ⟨0, last, rfl, List.forall_mem_nil _, rfl⟩

/-- Behind a walk that succeeds it goes on. -/
theorem walked (h : Stops own before result after) (made : Nat) (x last : τ) :
    Stops ((.ok made, last) :: own) (x :: before) result (last :: after) where
  succeeds := by
    rw [h.succeeds, List.forall_mem_cons]
    exact (and_iff_right ⟨made, rfl⟩).symm
  all hresult := by rw [h.all hresult, List.map_cons]
  first e hresult := by
    obtain ⟨k, failed, hfailed, hfront, hafter⟩ := h.first e hresult
    refine ⟨k + 1, failed, hfailed, ?_, ?_⟩
    · rw [List.take_succ_cons, List.forall_mem_cons]
      exact ⟨⟨made, rfl⟩, hfront⟩
    · rw [hafter, List.take_succ_cons, List.map_cons, List.drop_succ_cons, List.cons_append]

end Stops

end

/-! ## Own walks -/

variable {τ μ ν π ω : Type} [Tracker τ μ ν]

/-- The result of a walk with the tracker that it ends at. -/
def outcome (walked : Except Error Nat × Walk τ π ω) : Except Error Nat × τ :=
  (walked.1, walked.2.tracker)

/-- A particle that is about to walk, on the stream of its own seed, with what the walks in front
have handed on. -/
def setOut (s : Mixing τ π ω) (i : Nat) (x : τ) (handed : π × ω) : Walk τ π ω :=
  ⟨x, handed.1, .ofSeed (splitMix (s.draws.nth i)), handed.2⟩

/-- What the walks in front of a slot hand on, if all of them are made: the policy's memory and the
report. -/
def handedOn (policy : Policy τ μ π) (onMutation : Nat → μ → τ → ω → ω) (steps : Nat)
    (s : Mixing τ π ω) : Nat → π × ω
  | 0 => (s.memory, s.report)
  | i + 1 =>
      let handed := handedOn policy onMutation steps s i
      match s.population.particles[i]? with
      | none => handed
      | some x =>
          let walk := ((setOut s i x handed).mix policy (onMutation i) steps).2
          (walk.memory, walk.report)

/-- The walk of a particle from its own state with its own seed. -/
def ownWalk (policy : Policy τ μ π) (onMutation : Nat → μ → τ → ω → ω) (steps : Nat)
    (s : Mixing τ π ω) (i : Nat) (x : τ) : Except Error Nat × Walk τ π ω :=
  (setOut s i x (handedOn policy onMutation steps s i)).mix policy (onMutation i) steps

variable {policy : Policy τ μ π} {onMutation : Nat → μ → τ → ω → ω} {steps : Nat}
  {s : Mixing τ π ω}

theorem handedOn_succ {i : Nat} {x : τ} (hx : s.population.particles[i]? = some x) :
    handedOn policy onMutation steps s (i + 1) =
      ((ownWalk policy onMutation steps s i x).2.memory,
        (ownWalk policy onMutation steps s i x).2.report) := by
  rw [handedOn, hx]
  rfl

/-- Walks from a slot on stop at the first failure among them. -/
theorem stops_walkEach (policy : Policy τ μ π) (onMutation : Nat → μ → τ → ω → ω) (steps : Nat)
    (s : Mixing τ π ω) {walkers : List (τ × UInt64)} : ∀ slot : Nat,
    (∀ i x seed, walkers[i]? = some (x, seed) →
      s.population.particles[slot + i]? = some x ∧ seed = s.draws.nth (slot + i)) →
    let handed := handedOn policy onMutation steps s slot
    let mixed := walkEach policy onMutation steps slot walkers handed.1 handed.2
    Stops ((walkers.map Prod.fst).mapIdx fun i x =>
        outcome (ownWalk policy onMutation steps s (slot + i) x))
      (walkers.map Prod.fst) mixed.1 mixed.2.1 := by
  induction walkers with
  | nil =>
      intro slot _
      exact .nil
  | cons walker rest ih =>
      intro slot hwalkers
      obtain ⟨x, seed⟩ := walker
      have hfirst := hwalkers 0 x seed rfl
      rw [Nat.add_zero] at hfirst
      obtain ⟨hx, rfl⟩ := hfirst
      have hslot : ∀ i, slot + (i + 1) = slot + 1 + i := by omega
      have hrest := ih (slot + 1) fun i y seed' hy => hslot i ▸ hwalkers (i + 1) y seed' hy
      rw [handedOn_succ hx] at hrest
      intro handed
      rw [List.map_cons, List.mapIdx_cons, funext fun i => congrArg
        (fun slot x => outcome (ownWalk policy onMutation steps s slot x)) (hslot i)]
      -- the walk of the slot is the first of the walks that are mixed
      cases hown : ownWalk policy onMutation steps s slot x with
      | mk result walk =>
          have hmix : Walk.mix policy (onMutation slot) steps
              ⟨x, handed.1, .ofSeed (splitMix (s.draws.nth slot)), handed.2⟩ = (result, walk) := hown
          rw [hown] at hrest
          rw [walkEach, hmix]
          cases result with
          | error e => exact .refused _ _ e x walk.tracker
          | ok made => exact hrest.walked made x walk.tracker

theorem stops_mixAll (policy : Policy τ μ π) (onMutation : Nat → μ → τ → ω → ω) (steps : Nat)
    (s : Mixing τ π ω) :
    Stops (s.population.particles.mapIdx fun i x =>
        outcome (ownWalk policy onMutation steps s i x))
      s.population.particles (mixAll policy onMutation steps s).1
      (mixAll policy onMutation steps s).2.population.particles := by
  have hstops := stops_walkEach policy onMutation steps s 0 fun i x seed hi => by
    rw [getElem?_zip_seeds] at hi
    obtain ⟨y, hy, heq⟩ := Option.map_eq_some_iff.mp hi
    cases heq
    rw [Nat.zero_add]
    exact ⟨hy, rfl⟩
  simp only [Nat.zero_add, map_fst_zip_seeds] at hstops
  exact hstops

/-- A walk of an oblivious policy is the one that its particle makes when it is alone. -/
theorem outcome_alone (h : policy.Oblivious) (onMutation : Nat → μ → τ → ω → ω) (steps : Nat)
    (s : Mixing τ π ω) (memory : π) (i : Nat) (x : τ) :
    outcome (ownWalk policy onMutation steps s i x) =
      outcome (alone policy steps memory (x, .ofSeed (splitMix (s.draws.nth i)))) := by
  let lonely : Walk τ π Unit := ⟨x, memory, .ofSeed (splitMix (s.draws.nth i)), ()⟩
  have hwalker : (setOut s i x (handedOn policy onMutation steps s i)).walker = lonely.walker := rfl
  obtain ⟨hresult, hended⟩ := h.mix_congr (fun _ _ report => report) (onMutation i) steps hwalker
  exact Prod.ext hresult (congrArg Prod.fst hended)

/-- **Mixing goes as far as the first particle whose own walk fails.** -/
structure StopsAtFirstFailure (policy : Policy τ μ π) (onMutation : Nat → μ → τ → ω → ω)
    (steps : Nat) (s : Mixing τ π ω) : Prop where
  stops : Stops (s.population.particles.mapIdx fun i x =>
      outcome (ownWalk policy onMutation steps s i x))
    s.population.particles (mixAll policy onMutation steps s).1
    (mixAll policy onMutation steps s).2.population.particles
  /-- A walk leaves its particle where the moves in its journal lead. If it fails, the journal ends
  in the middle of a step, and the next move of the step is refused there. -/
  made : ∀ i x, let walk := setOut s i x (handedOn policy onMutation steps s i)
    Reproduced x (walk.journal policy steps) (ownWalk policy onMutation steps s i x).2.tracker ∧
      ∀ e, (ownWalk policy onMutation steps s i x).1 = .error e →
        walk.CutOff policy (onMutation i) steps e
  /-- What is the same on success and on failure. -/
  length : (mixAll policy onMutation steps s).2.population.particles.length =
    s.population.particles.length
  draws : (mixAll policy onMutation steps s).2.draws =
    s.draws.after s.population.particles.length
  /-- If the policy has no memory, the walks in front make no difference to a walk. -/
  oblivious : policy.Oblivious → ∀ memory,
    Stops (s.population.particles.mapIdx fun i x =>
        outcome (alone policy steps memory (x, .ofSeed (splitMix (s.draws.nth i)))))
      s.population.particles (mixAll policy onMutation steps s).1
      (mixAll policy onMutation steps s).2.population.particles

end Population

open Population

/-- **Mixing stops at the first failure only**, for every population, policy and stream, also if the
policy makes moves that the trackers refuse. -/
theorem mixing_stops_at_first_failure {τ μ ν π ω : Type} [Tracker τ μ ν] (policy : Policy τ μ π)
    (onMutation : Nat → μ → τ → ω → ω) (steps : Nat) (s : Mixing τ π ω) :
    StopsAtFirstFailure policy onMutation steps s where
  stops := stops_mixAll policy onMutation steps s
  made := by
    intro i x walk
    exact ⟨walk.reproduced_journal policy (onMutation i) steps, fun e he => Walk.cutOff_of_mix he⟩
  length := length_mixAll policy onMutation steps s
  draws := by
    show (s.population.seeds.run s.draws).2 = _
    rw [seeds_run]
  oblivious := by
    intro hpolicy memory
    simp only [← outcome_alone hpolicy onMutation steps s memory]
    exact stops_mixAll policy onMutation steps s

/-- Of three messages that make two steps each, the second one is refused its second move. -/
example :
    let s : Mixing (Message overlappingChecks) Nat Unit :=
      ⟨⟨List.replicate 3 (.zeros overlappingChecks)⟩, 0, .ofSeed 1, ()⟩
    let mixed := mixAll (.cyclic [some 0, some 1, some 2, some 7]) (fun _ _ _ report => report) 2 s
    mixed.1 = .error (.indexOutOfRange 7 3) ∧
      mixed.2.population.particles.map (·.bits) =
        [#v[true, true, false], #v[false, false, true], #v[false, false, false]] := by
  decide +kernel

end Winners
