import Winners.Number.Rounding

set_option autoImplicit false

/-! # Reading numbers

The numbers that may stand on a command line. A natural number is a row of digits after an
optional plus sign. A binary64 number is written in positional or scientific notation, with a
digit on at least one side of the point, or is one of the words `inf`, `infinity` and `nan` in
any case; a sign may precede it.
-/

namespace Winners

/-- The number with the given decimal digits, most significant first. -/
def ofDecimalDigits (digits : List Char) : Nat :=
  digits.foldl (fun n c => 10 * n + (c.toNat - '0'.toNat)) 0

/-- The natural number written in a text, if it is below `limit`. -/
def readNat? (limit : Nat) (text : String) : Option Nat :=
  let digits := match text.toList with
    | '+' :: rest => rest
    | all => all
  if digits.isEmpty || !digits.all Char.isDigit then none
  else
    let n := ofDecimalDigits digits
    if n < limit then some n else none

/-- A natural number that fits into 64 bits. -/
def readWord? (text : String) : Option Nat := readNat? 0x10000000000000000 text

/-- Splits off a sign; the flag says whether it is a minus. -/
def splitSign : List Char → Bool × List Char
  | '-' :: rest => (true, rest)
  | '+' :: rest => (false, rest)
  | all => (false, all)

/-- The exponent that ends a number: nothing, or an `e` and an integer. -/
def readExponent? : List Char → Option Int
  | [] => some 0
  | c :: rest =>
      let (negative, digits) := splitSign rest
      if c.toLower ≠ 'e' || digits.isEmpty || !digits.all Char.isDigit then none
      else
        let n : Int := ofDecimalDigits digits
        some (if negative then -n else n)

namespace Binary64

/-- The number written by a text without a sign. -/
def readUnsigned? (text : List Char) : Option Binary64 :=
  let word := String.ofList (text.map Char.toLower)
  if word = "inf" || word = "infinity" then some infinity
  else if word = "nan" then some nan
  else
    let whole := text.takeWhile Char.isDigit
    let (fraction, rest) := match text.dropWhile Char.isDigit with
      | '.' :: rest => (rest.takeWhile Char.isDigit, rest.dropWhile Char.isDigit)
      | rest => ([], rest)
    if whole.isEmpty && fraction.isEmpty then none
    else do
      let exponent ← readExponent? rest
      return ofDecimal (ofDecimalDigits (whole ++ fraction)) (exponent - fraction.length)

/-- The number written by a text. -/
def read? (text : String) : Option Binary64 :=
  let (negative, rest) := splitSign text.toList
  (readUnsigned? rest).map fun x => if negative then x.negate else x

end Binary64

end Winners
