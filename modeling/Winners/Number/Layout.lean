import Winners.Number.Shortest

set_option autoImplicit false

/-! # Numbers as text

How a binary64 number is written in messages, in log lines and in reports. Messages and log
lines show the shortest decimal that reads back; they differ in how whole numbers end and in
whether very large and very small numbers get an exponent. Reports show four decimal places.
-/

namespace Winners

/-- The decisions of a textual form: what follows a whole number, and for which positions of the
decimal point the number is written with an exponent. -/
structure Layout where
  wholeEnding : String
  usesExponent : Int → Bool

namespace Layout

/-- Messages never use an exponent and write whole numbers without a point. -/
def message : Layout := ⟨"", fun _ => false⟩

/-- Log lines keep one decimal place of a whole number, and use an exponent from `10 ^ 16` on
and, unless the number is zero, below `10 ^ (-4)`. -/
def log : Layout := ⟨".0", fun point => point < -3 || 16 < point⟩

/-- Digits with the point in its place, padded by zeros where there are too few digits. -/
def positional (l : Layout) (d : Decimal) : String :=
  if d.point ≤ 0 then
    "0." ++ String.ofList (List.replicate (-d.point).toNat '0' ++ d.digits)
  else
    let places := d.point.toNat
    let whole := d.digits.take places
    let padded := whole ++ List.replicate (places - whole.length) '0'
    match d.digits.drop places with
    | [] => String.ofList padded ++ l.wholeEnding
    | fraction => String.ofList padded ++ "." ++ String.ofList fraction

/-- One digit before the point, and the power of ten after an `e`. -/
def scientific (d : Decimal) : String :=
  let mantissa :=
    match d.digits with
    | [] => ""
    | [c] => String.ofList [c]
    | c :: fraction => String.ofList (c :: '.' :: fraction)
  mantissa ++ "e" ++ toString (d.point - 1)

/-- The text of a number of magnitude `m`, its sign aside. -/
def ofMagnitude (l : Layout) (m : Nat) : String :=
  if Binary64.infinityMagnitude < m then "NaN"
  else if m = Binary64.infinityMagnitude then "inf"
  else if m = 0 then "0" ++ l.wholeEnding
  else
    let d := Binary64.shortest m
    if l.usesExponent d.point then scientific d else l.positional d

/-- The text of a number. A NaN shows no sign, a negative zero does. -/
def write (l : Layout) (x : Binary64) : String :=
  let text := l.ofMagnitude x.magnitude
  if x.isNegative && !x.isNaN then "-" ++ text else text

end Layout

/-- A number with the given count of decimal places, rounded from its exact value, ties to
even. -/
def fixedPlaces (places : Nat) (x : Binary64) : String :=
  let scaled := divToEven (x.units * Nat.pow 10 places) Binary64.unitsInOne
  let digits := decimalDigits scaled
  let padded := List.replicate (places + 1 - digits.length) '0' ++ digits
  let whole := padded.take (padded.length - places)
  let fraction := padded.drop (padded.length - places)
  (if x.isNegative then "-" else "") ++ String.ofList whole ++ "." ++ String.ofList fraction

end Winners
