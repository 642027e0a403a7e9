import Spreadsheet.Value.Basic

/-!
# The order of values

Comparison operators order values of all kinds together: numbers, dates and times come before texts and
texts before truth values. Texts compare code point by code point. An empty value stands for zero, for
the empty text or for `FALSE`, whichever kind it meets.
-/

namespace Spreadsheet

namespace Value

/-- The place of a kind in the order. -/
def rank : Value → Nat
  | .empty | .number _ | .date _ | .time _ | .error _ => 0
  | .text _ => 1
  | .boolean _ => 2

/-- The order of two numbers; with a value that is not a number, none of the two is greater. -/
def orderNumbers (x y : Float) : Ordering :=
  if x < y then .lt else if y < x then .gt else .eq

/-- The order of two truth values: `FALSE` before `TRUE`. -/
def orderBooleans : Bool → Bool → Ordering
  | false, true => .lt
  | true, false => .gt
  | _, _ => .eq

/-- The order of two values. -/
def order : Value → Value → Ordering
  | .empty, .empty => .eq
  | .empty, .text s => compare "" s
  | .text s, .empty => compare s ""
  | .empty, .boolean b => orderBooleans false b
  | .boolean b, .empty => orderBooleans b false
  | .text s, .text t => compare s t
  | .boolean b, .boolean c => orderBooleans b c
  | v, w =>
    match compare v.rank w.rank with
    | .eq => orderNumbers (v.serial?.getD 0) (w.serial?.getD 0)
    | o => o

end Value

end Spreadsheet
