import Spreadsheet.Calendar.Serial
import Spreadsheet.Value.ErrorValue

/-!
# Values

What a cell holds and a formula yields. Dates and times are numbers with a display of their own; an
empty value is what every cell holds that nothing was stored in.
-/

namespace Spreadsheet

/-- The value of a cell or of a formula. -/
inductive Value where
  | empty
  | number (x : Float)
  | text (s : String)
  | boolean (b : Bool)
  /-- A serial number shown as a date. -/
  | date (serial : Float)
  /-- A fraction of a day shown as a time. -/
  | time (serial : Float)
  | error (e : ErrorValue)

instance : Inhabited Value := ⟨.empty⟩

namespace Value

/-- The text of a truth value. -/
def booleanText (b : Bool) : String := if b then "TRUE" else "FALSE"

/-- Whether a value is empty. -/
def isEmpty : Value → Bool
  | .empty => true
  | _ => false

/-- Whether a value is an error. -/
def isError : Value → Bool
  | .error _ => true
  | _ => false

/-- The number behind a number, a date or a time. -/
def serial? : Value → Option Float
  | .number x | .date x | .time x => some x
  | _ => none

/-- The name of the kind of a value. -/
def kindName : Value → String
  | .empty => "empty"
  | .number _ => "number"
  | .text _ => "text"
  | .boolean _ => "boolean"
  | .date _ => "date"
  | .time _ => "time"
  | .error _ => "error"

/-- What a cell with the value shows. A serial without a date or time of its own is shown as a
number, and an error as its code. -/
def display : Value → String
  | .empty => ""
  | .number x => Numeric.text x '.'
  | .text s => s
  | .boolean b => booleanText b
  | .date x =>
    match Calendar.Moment.ofSerial? x with
    | some m => m.date.text
    | none => Numeric.text x '.'
  | .time x =>
    match Calendar.Moment.ofSerial? (Calendar.timeOfDay x) with
    | some m => m.clock.text
    | none => Numeric.text x '.'
  | .error e => e.kind.code

/-- A value as it is written into a formula, numbers with the given decimal mark. Dates and times are
written as numbers. -/
def sourceText (v : Value) (mark : Char) : String :=
  match v with
  | .number x | .date x | .time x => Numeric.text x mark
  | .error e => e.kind.code
  | v => v.display

/-- Whether two values are the same. Numbers are compared as numbers: the two zeros are the same, and
a value that is not a number differs from every value, itself included. -/
def same : Value → Value → Bool
  | .empty, .empty => true
  | .number x, .number y => x == y
  | .text s, .text t => s == t
  | .boolean b, .boolean c => b == c
  | .date x, .date y => x == y
  | .time x, .time y => x == y
  | .error e, .error f => e == f
  | _, _ => false

theorem eq_empty_of_isEmpty {v : Value} (h : v.isEmpty = true) : v = .empty := by
  cases v with
  | empty => rfl
  | _ => cases h

end Value

end Spreadsheet
