import Winners.Number.Rounding

set_option autoImplicit false

/-! # The shortest decimal that reads back

A decimal reads back as a binary64 number when it lies in the stretch of reals nearer to that
number than to its neighbours, the midpoints included exactly when the magnitude is even. The
shortest decimal of a number has the fewest digits of all that read back; among those of equal
length it is the nearest, and of two equally near ones the greater.

Everything is counted in half units, so that the number, the midpoints on both sides of it and
every point of a decimal grid are compared as natural numbers.
-/

namespace Winners

/-- Decimal digits of a natural number, without leading zeros (`0` has the one digit `0`). -/
def decimalDigits (n : Nat) : List Char := Nat.toDigits 10 n

/-- The decimal `0.d₁d₂…dₖ * 10 ^ point`; the last digit is no zero. -/
structure Decimal where
  digits : List Char
  point : Int
deriving DecidableEq

namespace Binary64

/-- The stretch of reals that read back as one number, in half units. -/
structure Stretch where
  low : Nat
  value : Nat
  high : Nat
  closed : Bool

/-- The stretch around the number of magnitude `m`. -/
def stretch (m : Nat) : Stretch where
  low := unitsOfMagnitude (m - 1) + unitsOfMagnitude m
  value := 2 * unitsOfMagnitude m
  high := unitsOfMagnitude m + unitsOfMagnitude (m + 1)
  closed := m % 2 == 0

/-- Whether `point / scale` lies in the stretch. -/
def Stretch.contains (s : Stretch) (point scale : Nat) : Bool :=
  if s.closed then s.low * scale ≤ point && point ≤ s.high * scale
  else s.low * scale < point && point < s.high * scale

/-- Position of the leading digit: the value is at least `10 ^ leadingExponent` and less than ten
times that. The shift by 400 places makes every positive number at least one. -/
def Stretch.leadingExponent (s : Stretch) : Int :=
  ((decimalDigits (s.value * Nat.pow 10 400 / (2 * unitsInOne))).length : Int) - 401

/-- The multiple of `10 ^ e` in the stretch that is nearest to its value, if there is one. -/
def Stretch.onGrid (s : Stretch) (e : Int) : Option Nat :=
  let scale := Nat.pow 10 (-e).toNat
  let step := 2 * unitsInOne * Nat.pow 10 e.toNat
  let value := s.value * scale
  let below := value / step
  match s.contains (below * step) scale, s.contains ((below + 1) * step) scale with
  | true, true =>
      if value - below * step < (below + 1) * step - value then some below else some (below + 1)
  | true, false => some below
  | false, true => some (below + 1)
  | false, false => none

/-- The shortest decimal that reads back as the positive number of magnitude `m`. Seventeen
digits always suffice. -/
def shortest (m : Nat) : Decimal :=
  let s := stretch m
  let lead := s.leadingExponent
  let grids := (List.range 17).map fun (count : Nat) => lead - (count : Int)
  match grids.findSome? fun e => (s.onGrid e).map fun n => (n, e) with
  | none => ⟨[], 0⟩
  | some (n, e) =>
      let digits := decimalDigits n
      ⟨(digits.reverse.dropWhile (· == '0')).reverse, e + digits.length⟩

end Binary64

end Winners
