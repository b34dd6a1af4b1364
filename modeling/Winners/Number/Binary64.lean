set_option autoImplicit false

/-! # Binary64 numbers

Fitness values and thresholds are IEEE 754 binary64 numbers, kept here as the 64 bits that
encode them: the top bit is the sign and the other 63, read as a natural number, are the
*magnitude*. Magnitudes grow with the absolute value; those up to `infinityMagnitude` are
numbers, those above it are NaNs.

Two orders are defined through integers. `rank` gives the usual order, in which the two zeros
are equal and a NaN is comparable with nothing. `totalRank` gives the total order, in which
`-0` lies just below `+0`, the NaNs with the sign bit lie below all numbers and the NaNs
without it above. The total order is why the bits are kept: `Float` has a single NaN.
-/

namespace Winners

/-- A binary64 number, given by its encoding. -/
structure Binary64 where
  bits : UInt64
deriving DecidableEq, Inhabited

namespace Binary64

/-- The number with this magnitude and no sign bit. -/
def ofMagnitude (m : Nat) : Binary64 := ⟨UInt64.ofNat m⟩

/-- Magnitude of the infinities. -/
def infinityMagnitude : Nat := 0x7ff0000000000000

def zero : Binary64 := ofMagnitude 0

def infinity : Binary64 := ofMagnitude infinityMagnitude

/-- The NaN that operations produce. -/
def nan : Binary64 := ofMagnitude 0x7ff8000000000000

/-- The exponent and fraction fields, read as one natural number. -/
def magnitude (x : Binary64) : Nat := x.bits.toNat % 0x8000000000000000

/-- Whether the sign bit is set. -/
def isNegative (x : Binary64) : Bool := decide (0x8000000000000000 ≤ x.bits.toNat)

def isNaN (x : Binary64) : Bool := decide (infinityMagnitude < x.magnitude)

def isFinite (x : Binary64) : Bool := decide (x.magnitude < infinityMagnitude)

/-- Clears the sign bit. -/
def abs (x : Binary64) : Binary64 := ofMagnitude x.magnitude

/-- Flips the sign bit. -/
def negate (x : Binary64) : Binary64 := ⟨x.bits ^^^ 0x8000000000000000⟩

/-! ## Order -/

/-- Position in the usual order; the zeros share a position. -/
def rank (x : Binary64) : Int :=
  if x.isNegative then -(x.magnitude : Int) else x.magnitude

/-- Position in the total order, in which no two encodings share a position. -/
def totalRank (x : Binary64) : Int :=
  if x.isNegative then -(x.magnitude : Int) - 1 else x.magnitude

instance : LT Binary64 where
  lt x y := x.isNaN = false ∧ y.isNaN = false ∧ x.rank < y.rank

instance : LE Binary64 where
  le x y := x.isNaN = false ∧ y.isNaN = false ∧ x.rank ≤ y.rank

instance (x y : Binary64) : Decidable (x < y) :=
  inferInstanceAs (Decidable (x.isNaN = false ∧ y.isNaN = false ∧ x.rank < y.rank))

instance (x y : Binary64) : Decidable (x ≤ y) :=
  inferInstanceAs (Decidable (x.isNaN = false ∧ y.isNaN = false ∧ x.rank ≤ y.rank))

/-- Comparison in the total order. -/
def totalLe (x y : Binary64) : Bool := decide (x.totalRank ≤ y.totalRank)

theorem lt_def {x y : Binary64} :
    x < y ↔ x.isNaN = false ∧ y.isNaN = false ∧ x.rank < y.rank := Iff.rfl

theorem le_def {x y : Binary64} :
    x ≤ y ↔ x.isNaN = false ∧ y.isNaN = false ∧ x.rank ≤ y.rank := Iff.rfl

theorem magnitude_lt (x : Binary64) : x.magnitude < 0x8000000000000000 := Nat.mod_lt _ (by decide)

theorem rank_lt (x : Binary64) : x.rank < 0x8000000000000000 := by
  have := x.magnitude_lt
  unfold rank
  split <;> omega

theorem neg_lt_rank (x : Binary64) : -0x8000000000000000 < x.rank := by
  have := x.magnitude_lt
  unfold rank
  split <;> omega

end Binary64

end Winners
