import Spreadsheet.Text.LetterTable

/-!
# Letters and digits of all scripts

Names of areas and bare sheet names are made of letters and digits, in the Unicode sense: a letter has
the property Alphabetic and a digit has a number category. On ASCII characters both classes are the
usual ones, and `isLetter_of_ascii` and `isNumeral_of_ascii` say so.
-/

namespace Spreadsheet.Text

/-- A character with the property Alphabetic. -/
def isLetter (c : Char) : Bool :=
  if c.toNat < 128 then c.isAlpha else CodeRange.covers alphabeticRanges c.toNat

/-- A character whose general category is a number. -/
def isNumeral (c : Char) : Bool :=
  if c.toNat < 128 then c.isDigit else CodeRange.covers numericRanges c.toNat

/-- A letter or a digit of any script. -/
def isLetterOrNumeral (c : Char) : Bool :=
  isLetter c || isNumeral c

theorem isLetter_of_ascii {c : Char} (h : c.toNat < 128) : isLetter c = c.isAlpha := by
  simp [isLetter, h]

theorem isNumeral_of_ascii {c : Char} (h : c.toNat < 128) : isNumeral c = c.isDigit := by
  simp [isNumeral, h]

theorem isLetterOrNumeral_of_ascii {c : Char} (h : c.toNat < 128) :
    isLetterOrNumeral c = c.isAlphanum := by
  simp [isLetterOrNumeral, isLetter, isNumeral, h, Char.isAlphanum]

end Spreadsheet.Text
