import Winners.Number.Rounding

set_option autoImplicit false

/-! # Arithmetic

Sums, differences, products and quotients of binary64 numbers. The result on finite numbers is
the exact one, formed from whole units and rounded once. What has no value, such as the
difference of two infinities of one sign, is a NaN, and so is every result of a NaN.

Signs of zeros: an exact sum of zero is `+0` unless both terms are `-0`; a product or quotient
has the sign that its operands make, also when it is rounded to zero.
-/

namespace Winners.Binary64

/-- The exact value of a finite number, in units. -/
def signedUnits (x : Binary64) : Int := if x.isNegative then -(x.units : Int) else x.units

/-- `x` or, for a negative result, `-x`. -/
def withSign (negative : Bool) (x : Binary64) : Binary64 := if negative then x.negate else x

/-- The sum of two finite numbers. -/
def addFinite (x y : Binary64) : Binary64 :=
  let sum := x.signedUnits + y.signedUnits
  if sum = 0 then withSign (x.isNegative && y.isNegative) zero
  else withSign (decide (sum < 0)) (ofRatio sum.natAbs unitsInOne)

def add (x y : Binary64) : Binary64 :=
  if x.isNaN || y.isNaN then nan
  else if x.isFinite then
    if y.isFinite then addFinite x y else y
  else if y.isFinite || x.isNegative == y.isNegative then x
  else nan

def mul (x y : Binary64) : Binary64 :=
  let negative := x.isNegative != y.isNegative
  if x.isNaN || y.isNaN then nan
  else if x.isFinite && y.isFinite then
    withSign negative (ofRatio (x.units * y.units) (unitsInOne * unitsInOne))
  else if x.units = 0 || y.units = 0 then nan
  else withSign negative infinity

def div (x y : Binary64) : Binary64 :=
  let negative := x.isNegative != y.isNegative
  if x.isNaN || y.isNaN then nan
  else if x.isFinite then
    if !y.isFinite then withSign negative zero
    else if y.units ≠ 0 then withSign negative (ofRatio x.units y.units)
    else if x.units ≠ 0 then withSign negative infinity
    else nan
  else if y.isFinite then withSign negative infinity
  else nan

instance : Add Binary64 := ⟨add⟩
instance : Sub Binary64 := ⟨fun x y => add x y.negate⟩
instance : Mul Binary64 := ⟨mul⟩
instance : Div Binary64 := ⟨div⟩

end Winners.Binary64
