import Winners.Number.Binary64

set_option autoImplicit false

/-! # Rounding to the nearest binary64 number

The positive finite numbers are whole multiples of the smallest one, `2 ^ (-1074)`, called the
*unit* here: `unitsOfMagnitude m` is the number of units in the number of magnitude `m`. Inside
a stretch of `2 ^ 52` magnitudes (`0x10000000000000`) neighbours are `2 ^ k` units apart, with
`k` growing by one from stretch to stretch, so the number nearest to a ratio is found by dividing
its units by `2 ^ k` and rounding the quotient once, ties to even. The magnitude is then
`k * 2 ^ 52` plus that quotient, also when rounding carries into the next stretch.
-/

namespace Winners

/-- The natural number nearest to `num / den`; a tie goes to the even neighbour. -/
def divToEven (num den : Nat) : Nat :=
  let q := num / den
  let r := num % den
  if 2 * r < den then q
  else if den < 2 * r then q + 1
  else if q % 2 = 0 then q else q + 1

namespace Binary64

/-- Units in the number of the given magnitude. -/
def unitsOfMagnitude (m : Nat) : Nat :=
  let exponent := m / 0x10000000000000
  let fraction := m % 0x10000000000000
  if exponent = 0 then fraction else (0x10000000000000 + fraction) <<< (exponent - 1)

/-- Units in the absolute value of `x`. -/
def units (x : Binary64) : Nat := unitsOfMagnitude x.magnitude

/-- Units in one. -/
def unitsInOne : Nat := 1 <<< 1074

/-- The binary64 number nearest to `num / den`, ties to even; past the largest finite number
it is infinity. -/
def ofRatio (num den : Nat) : Binary64 :=
  let units := num * unitsInOne
  let k := (units / den).log2 - 52
  ofMagnitude (min (k * 0x10000000000000 + divToEven units (den <<< k)) infinityMagnitude)

def ofNat (n : Nat) : Binary64 := ofRatio n 1

/-- The binary64 number nearest to an integer. -/
def ofInt : Int → Binary64
  | .ofNat n => ofNat n
  | .negSucc n => (ofNat (n + 1)).negate

/-- The number nearest to `digits * 10 ^ exponent`. Past the range of the finite numbers on
either side the power of ten is not formed. -/
def ofDecimal (digits : Nat) (exponent : Int) : Binary64 :=
  let width := (Nat.toDigits 10 digits).length
  if digits = 0 then zero
  else if 400 < exponent then infinity
  else if exponent + width < -400 then zero
  else if 0 ≤ exponent then ofNat (digits * Nat.pow 10 exponent.toNat)
  else ofRatio digits (Nat.pow 10 (-exponent).toNat)

/-- The integer part of `x * 2 ^ 64`, for `x` at least zero. -/
def floorTimesTwoPow64 (x : Binary64) : Nat := (x.units <<< 64) / unitsInOne

end Binary64

end Winners
