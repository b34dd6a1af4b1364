import Winners.Proofs.Draws.Spread
import Winners.Proofs.Search.FirstFailure
import Winners.Proofs.Search.Solved

set_option autoImplicit false

/-! # Seeds are kept apart

A search has a base seed, and each particle gets a word of the search's own stream before a round's
walks. Neither is used as it is: `splitMix` makes the master seed of the search from the one and the
seed of a walk from the other. It only rearranges the words, so nothing that is different becomes
equal. Particles have the same walk seed just when the same word has been drawn for them, and then
only do they walk on the same stream (`Population.Seeded`). Searches have the same master seed just
when they have the same base seed (`seeds_are_kept_apart`).
-/

namespace Winners

namespace Population

variable {τ μ ν π ω : Type} [Tracker τ μ ν]

/-- The seed of the walk of the particle in a slot. -/
def walkSeed (s : Mixing τ π ω) (i : Nat) : UInt64 := splitMix (s.draws.nth i)

theorem walkSeed_eq_iff {s s' : Mixing τ π ω} {i j : Nat} :
    walkSeed s i = walkSeed s' j ↔ s.draws.nth i = s'.draws.nth j :=
  splitMix_injective.eq_iff

/-- **How the walks of a round are seeded.** -/
structure Seeded (policy : Policy τ μ π) (onMutation : Nat → μ → τ → ω → ω) (steps : Nat)
    (s : Mixing τ π ω) : Prop where
  /-- One word is drawn for each particle. -/
  words : s.population.seeds.run s.draws =
    ((List.range s.population.particles.length).map s.draws.nth,
      s.draws.after s.population.particles.length)
  /-- The particles end up where the walks that they set out on take them, up to the first that
  fails. -/
  walks : Stops (s.population.particles.mapIdx fun i x =>
      outcome (ownWalk policy onMutation steps s i x))
    s.population.particles (mixAll policy onMutation steps s).1
    (mixAll policy onMutation steps s).2.population.particles
  streams : ∀ i x handed, (setOut s i x handed).draws = .ofSeed (walkSeed s i)
  /-- Walks of a round have the same seed just when the same word has been drawn for them. -/
  apart : ∀ i j, walkSeed s i = walkSeed s j ↔ s.draws.nth i = s.draws.nth j
  streams_apart : ∀ i j x y handed handed',
    (setOut s i x handed).draws = (setOut s j y handed').draws ↔ s.draws.nth i = s.draws.nth j

theorem seeded (policy : Policy τ μ π) (onMutation : Nat → μ → τ → ω → ω) (steps : Nat)
    (s : Mixing τ π ω) : Seeded policy onMutation steps s where
  words := seeds_run s.population s.draws
  walks := stops_mixAll policy onMutation steps s
  streams _ _ _ := rfl
  apart _ _ := walkSeed_eq_iff
  streams_apart _ _ _ _ _ _ := Draws.ofSeed_injective.eq_iff.trans walkSeed_eq_iff

end Population

/-! ## Searches -/

namespace Config

/-- The configured seed, or another one where none is configured. -/
def baseSeed (c : Config) (fallbackSeed : UInt64) : UInt64 := c.seed.getD fallbackSeed

/-- The seed of the stream that a search draws from. -/
def masterSeed (c : Config) (fallbackSeed : UInt64) : UInt64 := splitMix (c.baseSeed fallbackSeed)

end Config

open Population Search

/-- **Seeds are kept apart.** A SplitMix64 step is a bijection of the words. So the walks of a
round, of any population and policy, have the same seed only if the same word has been drawn for
them. A search is built from the stream of its master seed, and different base seeds have different
master seeds. -/
theorem seeds_are_kept_apart :
    Function.Bijective splitMix ∧
    (∀ {τ μ ν π ω : Type} [Tracker τ μ ν] (policy : Policy τ μ π)
      (onMutation : Nat → μ → τ → ω → ω) (steps : Nat) (s : Mixing τ π ω),
      Seeded policy onMutation steps s) ∧
    (∀ {τ μ ν π σ ω : Type} [Tracker τ μ ν] {setup : Setup τ μ ν π σ ω} {memory : π} {plan : σ}
      {report : ω} {fallbackSeed : UInt64} {factory : Factory τ} {s : Search τ π σ ω},
      start setup memory plan report fallbackSeed factory = .ok s →
      (Population.create setup.config.population factory).run
        (.ofSeed (setup.config.masterSeed fallbackSeed)) = .ok (s.population, s.draws)) ∧
    (∀ (c c' : Config) (fallbackSeed fallbackSeed' : UInt64),
      c.baseSeed fallbackSeed ≠ c'.baseSeed fallbackSeed' →
      c.masterSeed fallbackSeed ≠ c'.masterSeed fallbackSeed') := by
  refine ⟨splitMix_bijective, seeded, ?_, ?_⟩
  · intro τ μ ν π σ ω _ setup memory plan report fallbackSeed factory s h
    exact (created_of_start h).1
  · intro c c' fallbackSeed fallbackSeed'
    exact splitMix_injective.ne

/-- Three particles of which the first two have drawn the same word, and a search whose factory
draws nothing, so that it stands at the start of its stream. -/
theorem seeds_are_kept_apart_script :
    (let s : Mixing (Message overlappingChecks) Unit Unit :=
        ⟨⟨List.replicate 3 (.zeros overlappingChecks)⟩, (), ⟨[5, 5, 6], .ofSeed 0⟩, ()⟩;
      walkSeed s 0 = walkSeed s 1 ∧ walkSeed s 0 ≠ walkSeed s 2) ∧
    (∃ s₀, smallSearch .uniformFlip codeword.schedule (.ok (Message.zeros overlappingChecks)) =
        .ok s₀ ∧
      s₀.draws = .ofSeed 0x63cbe1e459320dd7) ∧
    Config.masterSeed { seed := some 7 } 0 ≠ Config.masterSeed {} 8 := by
  obtain ⟨-, hseeded, hbuilt, hmaster⟩ := seeds_are_kept_apart
  refine ⟨?_, ?_, hmaster _ _ _ _ (by decide)⟩
  · intro s
    have hs := hseeded (Policy.uniformFlip (τ := Message overlappingChecks)) (fun _ _ _ u => u) 1 s
    exact ⟨(hs.apart 0 1).mpr (by decide), mt (hs.apart 0 2).mp (by decide)⟩
  · obtain ⟨s₀, hs₀⟩ := failure?_eq_none.mp (show failure? (smallSearch .uniformFlip
      codeword.schedule (.ok (Message.zeros overlappingChecks))) = none by decide +kernel)
    refine ⟨s₀, hs₀, ?_⟩
    have hcreated := hbuilt hs₀
    have hdraws : ((Population.create 4 (Factory.copies (.ok (Message.zeros overlappingChecks)))).run
        (.ofSeed (Config.masterSeed { seed := some 7 } 0))).map Prod.snd =
          .ok (.ofSeed 0x63cbe1e459320dd7) := by decide +kernel
    exact Except.ok.inj ((congrArg (Except.map Prod.snd) hcreated).symm.trans hdraws)

end Winners
