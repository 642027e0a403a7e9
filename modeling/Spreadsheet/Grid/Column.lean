/-!
# Lines of the grid and column letters

Columns and rows are numbered from one, and a line number fits into 32 bits. A column is also written
in letters: base 26 without a zero digit, so `Z` is 26 and `AA` is 27. `ofLetters?` reads letters of
either case and refuses what does not fit; `letters` writes them.
-/

namespace Spreadsheet.Grid

/-- The greatest line number, of 32 bits. -/
def lastLine : Nat := Nat.pow 2 32 - 1

/-- The line `count` further on, held at the last line. -/
def advance (line count : Nat) : Nat := min (line + count) lastLine

/-- The value of a letter as a digit, 1 to 26. -/
def letterValue (c : Char) : Nat := c.toUpper.toNat - 'A'.toNat + 1

/-- The letter of a digit, 0 standing for `A`. -/
def letterOf (n : Nat) : Char := Char.ofNat ('A'.toNat + n)

/-- Reads letters from the left onto a column already read; `none` at a character that is no ASCII
letter and at a column beyond the last line. -/
def readLetters : (column : Nat) → List Char → Option Nat
  | column, [] => some column
  | column, c :: cs =>
    if c.isAlpha then
      let next := 26 * column + letterValue c
      if next ≤ lastLine then readLetters next cs else none
    else none

/-- The column that letters name: at least one letter, in either case. -/
def column? (s : String) : Option Nat :=
  if s.toList = [] then none else readLetters 0 s.toList

/-- The letters of a column, least significant last; none for column zero. -/
def letterList (column : Nat) : List Char :=
  if _h : column = 0 then []
  else letterList ((column - 1) / 26) ++ [letterOf ((column - 1) % 26)]
termination_by column
decreasing_by omega

/-- The letters of a column. -/
def columnLetters (column : Nat) : String :=
  String.ofList (letterList column)

end Spreadsheet.Grid
