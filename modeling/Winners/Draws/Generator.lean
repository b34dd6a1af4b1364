set_option autoImplicit false

/-! # Random words

Every random choice of the library is computed from a stream of 64-bit words. A stream
(`Draws`) first gives the words of a script and then those of a xoshiro256++ generator. Any
finite piece of any stream can be scripted, so a statement about all streams is a statement
about all sequences of draws.

`splitMix` is the SplitMix64 step: it spreads a seed over 64 bits. Generators are seeded by it,
and so are the walks of the particles of a population.
-/

namespace Winners

/-- The increment between consecutive SplitMix64 states. -/
def splitMixGamma : UInt64 := 0x9e3779b97f4a7c15

/-- One SplitMix64 output, from the state before it. -/
def splitMix (x : UInt64) : UInt64 :=
  let z := x + splitMixGamma
  let z := (z ^^^ (z >>> 30)) * 0xbf58476d1ce4e5b9
  let z := (z ^^^ (z >>> 27)) * 0x94d049bb133111eb
  z ^^^ (z >>> 31)

def rotateLeft (x : UInt64) (k : UInt64) : UInt64 := (x <<< k) ||| (x >>> (64 - k))

/-- State of a xoshiro256++ generator. -/
structure Xoshiro where
  s0 : UInt64
  s1 : UInt64
  s2 : UInt64
  s3 : UInt64
deriving DecidableEq

namespace Xoshiro

/-- Four consecutive SplitMix64 outputs, starting from `seed`. -/
def ofSeed (seed : UInt64) : Xoshiro where
  s0 := splitMix seed
  s1 := splitMix (seed + splitMixGamma)
  s2 := splitMix (seed + 2 * splitMixGamma)
  s3 := splitMix (seed + 3 * splitMixGamma)

def next (g : Xoshiro) : UInt64 × Xoshiro :=
  let word := rotateLeft (g.s0 + g.s3) 23 + g.s0
  let s2 := g.s2 ^^^ g.s0
  let s3 := g.s3 ^^^ g.s1
  (word, ⟨g.s0 ^^^ s3, g.s1 ^^^ s2, s2 ^^^ (g.s1 <<< 17), rotateLeft s3 45⟩)

end Xoshiro

/-- A stream of random words: a script, then a generator. -/
structure Draws where
  script : List UInt64
  generator : Xoshiro
deriving DecidableEq

namespace Draws

/-- The stream of a seeded generator, without a script. -/
def ofSeed (seed : UInt64) : Draws := ⟨[], .ofSeed seed⟩

def next : Draws → UInt64 × Draws
  | ⟨[], g⟩ => let (word, g) := g.next; (word, ⟨[], g⟩)
  | ⟨word :: script, g⟩ => (word, ⟨script, g⟩)

end Draws

end Winners
