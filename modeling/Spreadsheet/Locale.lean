import Spreadsheet.Numeric.Decimal
import Spreadsheet.Text.Blank
import Spreadsheet.Text.Ascii

/-!
# Locales

A locale chooses two characters: the one between the whole and the fractional part of a number, and the
one between the arguments of a function. Numbers never have other separators.
-/

namespace Spreadsheet

/-- The decimal mark and the argument separator. -/
structure Locale where
  decimal : Char
  separator : Char
  deriving DecidableEq, Repr

namespace Locale

/-- A point in numbers and commas between arguments. -/
def invariant : Locale := ⟨'.', ','⟩

/-- A comma in numbers and semicolons between arguments. -/
def commaDecimal : Locale := ⟨',', ';'⟩

/-- Reads a number, blanks around it aside. -/
def readNumber (l : Locale) (s : String) : Option Float :=
  Numeric.read l.decimal (Text.trimBlanks s)

/-- Writes a number. -/
def numberText (l : Locale) (x : Float) : String :=
  Numeric.text x l.decimal

/-- Folds the case of a name that is looked up; ASCII letters only. -/
def foldCase (_ : Locale) (s : String) : String :=
  Text.foldAscii s

end Locale

end Spreadsheet
