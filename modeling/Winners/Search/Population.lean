import Winners.Walk.Mixing
import Winners.Threshold.Direction

set_option autoImplicit false

/-! # Populations

A population is a list of trackers, its particles. In a round all particles walk, those that
fail the threshold are culled, and copies of survivors fill the population up again.

Each particle walks on a stream of draws of its own, seeded by one word of the population's
stream. All seeds are drawn before the first walk, so a walk depends on its own particle and seed
only and the order of the walks does not matter.
-/

namespace Winners

/-- Builds the particle of a slot. -/
abbrev Factory (τ : Type) := Nat → StateT Draws (Except Error) τ

structure Population (τ : Type) where
  particles : List τ

/-- What a cull does. -/
inductive Culled
  | survived (count : Nat)
  | extinct
deriving DecidableEq

namespace Population

/-! ## Construction -/

/-- Particles for `count` slots from `slot` on, after those built already (last one first). -/
def build {τ : Type} (factory : Factory τ) (slot : Nat) (built : List τ) :
    (count : Nat) → StateT Draws (Except Error) (List τ)
  | 0 => return built.reverse
  | count + 1 => do
      let particle ← factory slot
      build factory (slot + 1) (particle :: built) count

/-- A population of `n` particles, built in slot order. -/
def create {τ : Type} (n : Nat) (factory : Factory τ) :
    StateT Draws (Except Error) (Population τ) := do
  if n = 0 then throw (.invalid .noParticles)
  return ⟨← build factory 0 [] n⟩

/-- A population of given particles. -/
def ofParticles {τ : Type} (particles : List τ) : Except Error (Population τ) :=
  if particles.isEmpty then .error (.invalid .noParticles) else .ok ⟨particles⟩

section

variable {τ μ ν π ω : Type} [Tracker τ μ ν]

/-! ## Queries -/

def size (P : Population τ) : Nat := P.particles.length

/-- The fitness of every particle, in slot order. -/
def fitness (P : Population τ) : List Binary64 := P.particles.map Tracker.fitness

/-- The particle that no other improves on, the first of several. -/
def best (P : Population τ) (d : Direction) : Option τ :=
  P.particles.foldl
    (fun best particle =>
      match best with
      | none => some particle
      | some b =>
          if d.improves (Tracker.fitness particle) (Tracker.fitness b) then some particle else best)
    none

/-! ## Mixing -/

/-- Lets the particles walk in slot order, each on the stream of its seed, up to the first walk
that fails. -/
def walkEach (policy : Policy τ μ π) (onMutation : Nat → μ → τ → ω → ω) (steps : Nat) :
    Nat → List (τ × UInt64) → π → ω → Except Error Unit × List τ × π × ω
  | _, [], memory, report => (.ok (), [], memory, report)
  | slot, (particle, seed) :: rest, memory, report =>
      let walk : Walk τ π ω := ⟨particle, memory, .ofSeed (splitMix seed), report⟩
      match walk.mix policy (onMutation slot) steps with
      | (.error e, walk) =>
          (.error e, walk.tracker :: rest.map Prod.fst, walk.memory, walk.report)
      | (.ok _, walk) =>
          let (result, particles, memory, report) :=
            walkEach policy onMutation steps (slot + 1) rest walk.memory walk.report
          (result, walk.tracker :: particles, memory, report)

/-- One seed for each particle. -/
def seeds (P : Population τ) : Sampler (List UInt64) :=
  P.particles.mapM fun _ => Sampler.word

/-- What mixing a population works on. -/
structure Mixing (τ π ω : Type) where
  population : Population τ
  memory : π
  draws : Draws
  report : ω

/-- Lets every particle walk for a number of steps. -/
def mixAll (policy : Policy τ μ π) (onMutation : Nat → μ → τ → ω → ω) (steps : Nat)
    (s : Mixing τ π ω) : Except Error Unit × Mixing τ π ω :=
  let (seeds, draws) := s.population.seeds.run s.draws
  let (result, particles, memory, report) :=
    walkEach policy onMutation steps 0 (s.population.particles.zip seeds) s.memory s.report
  (result, ⟨⟨particles⟩, memory, draws, report⟩)

/-! ## Selection -/

/-- Keeps the particles whose fitness is accepted. If there is none, all stay. -/
def cull (keep : Binary64 → Bool) (P : Population τ) : Culled × Population τ :=
  let survivors := P.particles.filter fun p => keep (Tracker.fitness p)
  if survivors.isEmpty then (.extinct, P) else (.survived survivors.length, ⟨survivors⟩)

/-- Appends copies of particles that are drawn among the first `k`, while the list grows. -/
def appendCopies (k : Nat) (pos : 0 < k) :
    (missing : Nat) → (particles : List τ) → k ≤ particles.length → Sampler (List τ)
  | 0, particles, _ => return particles
  | missing + 1, particles, h => do
      let donor ← Sampler.below k pos
      appendCopies k pos missing (particles ++ [particles.get (donor.castLE h)])
        (by rw [List.length_append]; exact Nat.le_add_right_of_le h)

/-- Fills a population up to `target` with copies of uniformly chosen particles, of those only that
are there before. Beside the result, which is the number of copies, stand the population and the
draws as they are then. -/
def refill (target : Nat) (P : Population τ) (draws : Draws) :
    Except Error Nat × Population τ × Draws :=
  if h : 0 < P.particles.length then
    if target < P.particles.length then
      (.error (.invalid (.shrinking P.particles.length target)), P, draws)
    else
      let missing := target - P.particles.length
      let copying := appendCopies P.particles.length h missing P.particles (Nat.le_refl _)
      let (particles, draws) := copying.run draws
      (.ok missing, ⟨particles⟩, draws)
  else (.error .emptyPopulation, P, draws)

end

end Population

end Winners
