import Spreadsheet.Value.Basic
import Spreadsheet.Locale

/-!
# Reading one kind of value as another

Operators and functions take values of any kind. As a number, an empty value is zero, a truth value one
or zero, and a text the number it spells in the locale; as a text, every value is what a formula would
write; as a truth value, a number says whether it is not zero. An error is passed on.
-/

namespace Spreadsheet

namespace Value

/-- A value as a number. -/
def toNumber (locale : Locale) : Value → Except ErrorValue Float
  | .empty => .ok 0
  | .number x | .date x | .time x => .ok x
  | .boolean b => .ok (if b then 1 else 0)
  | .text s =>
    match locale.readNumber s with
    | some x => .ok x
    | none => .error (Cause.notANumber s).toError
  | .error e => .error e

/-- A value as a text. -/
def toText (locale : Locale) : Value → Except ErrorValue String
  | .empty => .ok ""
  | .number x | .date x | .time x => .ok (locale.numberText x)
  | .boolean b => .ok (booleanText b)
  | .text s => .ok s
  | .error e => .error e

/-- A value as a truth value. -/
def toBoolean : Value → Except ErrorValue Bool
  | .empty => .ok false
  | .boolean b => .ok b
  | .number x | .date x | .time x => .ok (x != 0)
  | .text s =>
    if Text.sameAscii s "TRUE" then .ok true
    else if Text.sameAscii s "FALSE" then .ok false
    else .error (Cause.notLogical s).toError
  | .error e => .error e

/-- The value that a text typed into a cell stands for: nothing, a number of the locale, a truth
value, or the text itself. -/
def ofConstant (locale : Locale) (s : String) : Value :=
  if s = "" then .empty
  else
    match locale.readNumber s with
    | some x => .number x
    | none =>
      if Text.sameAscii s "TRUE" then .boolean true
      else if Text.sameAscii s "FALSE" then .boolean false
      else .text s

end Value

/-- A result of arithmetic, refused when it is infinite or not a number. -/
def finite (x : Float) : Except ErrorValue Float :=
  if x.isFinite then .ok x else .error Cause.notFinite.toError

end Spreadsheet
