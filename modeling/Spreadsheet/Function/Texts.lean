import Spreadsheet.Function.Basic
import Spreadsheet.Text.Case

/-!
# Functions over texts

Lengths and positions count characters, that is, code points.
-/

namespace Spreadsheet

namespace Function

/-- A function of one text. -/
def ofText (name : String) (rule : String → Value) : Function :=
  .ofOne name {} fun locale a => do
    let s ← a.toText locale
    pure (rule s)

/-- A number of characters: one if it is not given or empty, and never negative. -/
def characterCount (locale : Locale) : Option Argument → Except ErrorValue Nat
  | none | some (.value .empty) => .ok 1
  | some a => do
    let n ← a.toWord locale
    if n < 0 then .error (Cause.negativeCount n.toInt).toError else pure n.toInt.toNat

/-- A function that takes a number of characters from a text. -/
def taking (name : String) (rule : Nat → List Char → List Char) : Function :=
  .ofOneOrTwo name {} fun locale a count => do
    let s ← a.toText locale
    let n ← characterCount locale count
    pure (.text (String.ofList (rule n s.toList)))

/-- The number of characters. -/
def length : Function := ofText "LEN" fun s => .number (Float.ofNat s.length)

/-- The first characters. -/
def firstCharacters : Function := taking "LEFT" fun n cs => cs.take n

/-- The last characters. -/
def lastCharacters : Function := taking "RIGHT" fun n cs => cs.drop (cs.length - n)

/-- A number of characters from a position on, the first of which is one. -/
def middle : Function :=
  .ofThree "MID" {} fun locale a b c => do
    let s ← a.toText locale
    let start ← b.toWord locale
    let count ← c.toWord locale
    if start < 1 then .error (Cause.startBelowOne start.toInt).toError
    else if count < 0 then .error (Cause.negativeLength count.toInt).toError
    else
      pure (.text (String.ofList
        ((s.toList.drop (start.toInt.toNat - 1)).take count.toInt.toNat)))

/-- The text in upper case. -/
def upperCase : Function := ofText "UPPER" fun s => .text (Text.upper s)

/-- The text in lower case. -/
def lowerCase : Function := ofText "LOWER" fun s => .text (Text.lower s)

/-- The words of a text, where only the space separates words. -/
def words (cs : List Char) : List (List Char) :=
  (cs.splitOn ' ').filter fun w => !w.isEmpty

/-- The words of a text with one space between them. -/
def trimmed : Function :=
  ofText "TRIM" fun s => .text (String.ofList ([' '].intercalate (words s.toList)))

/-- The texts of all values, one after the other. -/
def joinTexts (locale : Locale) : List Value → Except ErrorValue String
  | [] => .ok ""
  | v :: vs => do
    let s ← v.toText locale
    let t ← joinTexts locale vs
    pure (s ++ t)

/-- The texts of all arguments joined. -/
def concatenation : Function :=
  .variadic "CONCATENATE" { reduction := true } 1 fun locale args => do
    let s ← joinTexts locale (args.flatMap Argument.values)
    pure (.text s)

/-- Whether two texts are the same, case included. -/
def exactness : Function :=
  .ofTwo "EXACT" {} fun locale a b => do
    let s ← a.toText locale
    let t ← b.toText locale
    pure (.boolean (s == t))

/-- The functions over texts. -/
def texts : List Function :=
  [length, firstCharacters, lastCharacters, middle, upperCase, lowerCase, trimmed, concatenation,
    exactness]

end Function

end Spreadsheet
