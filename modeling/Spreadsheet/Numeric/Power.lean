import Spreadsheet.Numeric.Binary

/-!
# Powers and rounding to places

Rounding to decimal places multiplies by a power of ten that is itself a double, built by repeated
squaring: from `10^23` on it is not the double nearest to the true power, and the answers show that.
-/

namespace Spreadsheet.Numeric

/-- `acc · base^n` by repeated squaring: the current square is taken in when the exponent is odd. -/
def powerFrom (acc base : Float) (n : Nat) : Float :=
  let acc := if n % 2 = 1 then acc * base else acc
  if _h : n / 2 = 0 then acc else powerFrom acc (base * base) (n / 2)
termination_by n
decreasing_by omega

/-- `base^n` by repeated squaring. -/
def wholePower (base : Float) (n : Nat) : Float :=
  powerFrom 1 base n

/-- The most decimal places, in either direction, that rounding looks at. -/
def placeLimit : Int := 308

/-- Rounds to a number of decimal places, half away from zero; negative places count to the left of
the point. Where the detour through the power of ten leaves the finite numbers, `x` is kept. -/
def roundToPlaces (x : Float) (places : Int) : Float :=
  let places := max (-placeLimit) (min placeLimit places)
  let factor := wholePower 10 places.natAbs
  let rounded :=
    if 0 ≤ places then roundNumber (x * factor) / factor else roundNumber (x / factor) * factor
  if rounded.isFinite then rounded else x

/-- The smaller of two numbers; a value that is not a number gives way to the other. -/
def least (x y : Float) : Float :=
  if x.isNaN then y else if y.isNaN then x else if y < x then y else x

/-- The larger of two numbers; a value that is not a number gives way to the other. -/
def greatest (x y : Float) : Float :=
  if x.isNaN then y else if y.isNaN then x else if x < y then y else x

end Spreadsheet.Numeric
