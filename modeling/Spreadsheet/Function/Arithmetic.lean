import Spreadsheet.Function.Basic
import Spreadsheet.Numeric.Power

/-!
# Functions over numbers

Sums, products and extremes fold the numbers of all their arguments; the other functions take one or
two numbers. A result that is infinite or not a number is returned as it is: the evaluator refuses it.
-/

namespace Spreadsheet

/-- A quotient; a zero divisor is an error. -/
def quotient (x y : Float) : Except ErrorValue Float :=
  if y == 0 then .error Cause.divisionByZero.toError else .ok (x / y)

/-- A power; an error where it is undefined. -/
def raise (base exponent : Float) : Except ErrorValue Float :=
  if base == 0 && exponent < 0 then .error Cause.zeroToNegative.toError
  else
    let result := Float.pow base exponent
    if result.isNaN then .error (Cause.undefinedPower base exponent).toError else .ok result

namespace Function

/-- The sum of numbers, from the left. -/
def total (xs : List Float) : Float := xs.foldl (· + ·) 0

/-- The number that a fold of two numbers gives for a list; zero for none. -/
def extreme (choose : Float → Float → Float) : List Float → Float
  | [] => 0
  | x :: xs => xs.foldl choose x

/-- A function that folds the numbers of its arguments into one. -/
def folding (name : String) (least : Nat)
    (rule : List Float → Except ErrorValue Float) : Function :=
  .variadic name { reduction := true, numeric := true } least fun locale args => do
    let xs ← numbersOf locale args
    let x ← rule xs
    pure (.number x)

/-- A function of one number. -/
def ofNumber (name : String) (rule : Float → Except ErrorValue Float) : Function :=
  .ofOne name { numeric := true } fun locale a => do
    let x ← a.toNumber locale
    let y ← rule x
    pure (.number y)

/-- A function of two numbers. -/
def ofNumbers (name : String) (rule : Float → Float → Except ErrorValue Float) : Function :=
  .ofTwo name { numeric := true } fun locale a b => do
    let x ← a.toNumber locale
    let y ← b.toNumber locale
    let z ← rule x y
    pure (.number z)

/-- The sum of all numbers. -/
def sum : Function := folding "SUM" 0 fun xs => .ok (total xs)

/-- The product of all numbers; zero if there are none. -/
def product : Function :=
  folding "PRODUCT" 1 fun xs => .ok (if xs.isEmpty then 0 else xs.foldl (· * ·) 1)

/-- The mean of all numbers. -/
def average : Function :=
  folding "AVERAGE" 1 fun xs =>
    if xs.isEmpty then .error Cause.averageOfNone.toError
    else .ok (total xs / Float.ofNat xs.length)

/-- The least number; zero if there are none. -/
def minimum : Function := folding "MIN" 1 fun xs => .ok (extreme Numeric.least xs)

/-- The greatest number; zero if there are none. -/
def maximum : Function := folding "MAX" 1 fun xs => .ok (extreme Numeric.greatest xs)

/-- How many numbers an argument counts for: a truth value given as a value counts, and a text given
as a value counts if it spells a number. -/
def countOf (locale : Locale) : Argument → Nat
  | .value (.text s) => if (locale.readNumber s).isSome then 1 else 0
  | .value (.boolean _) => 1
  | a => a.values.countP fun v => v.serial?.isSome

/-- The number of numbers. -/
def count : Function :=
  .variadic "COUNT" { reduction := true } 1 fun locale args =>
    .ok (.number (Float.ofNat (args.foldl (fun n arg => n + countOf locale arg) 0)))

/-- The absolute value. -/
def absolute : Function := ofNumber "ABS" fun x => .ok x.abs

/-- The square root. -/
def squareRoot : Function :=
  ofNumber "SQRT" fun x =>
    if x < 0 then .error (Cause.negativeRoot x).toError else .ok x.sqrt

/-- The greatest whole number that is not greater. -/
def wholePart : Function := ofNumber "INT" fun x => .ok (Numeric.floorNumber x)

/-- Rounding to decimal places, none if they are not given. -/
def rounding : Function :=
  .ofOneOrTwo "ROUND" { numeric := true } fun locale a places => do
    let x ← a.toNumber locale
    let n ← match places with
      | some p => p.toWord locale
      | none => pure 0
    pure (.number (Numeric.roundToPlaces x n.toInt))

/-- The remainder of a division, with the sign of the divisor. -/
def modulo : Function :=
  ofNumbers "MOD" fun x y => do
    let q ← quotient x y
    pure (x - y * Numeric.floorNumber q)

/-- A power. -/
def power : Function := ofNumbers "POWER" raise

/-- The ratio of a circle's circumference to its diameter. -/
def circleRatio : Function := .constant "PI" {} (.number (Float.ofBits 0x400921FB54442D18))

/-- The functions over numbers. -/
def arithmetic : List Function :=
  [sum, product, average, minimum, maximum, count, absolute, squareRoot, wholePart, rounding, modulo,
    power, circleRatio]

end Function

end Spreadsheet
