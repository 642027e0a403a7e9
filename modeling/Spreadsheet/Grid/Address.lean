import Spreadsheet.Grid.Column

/-!
# Addresses

An address is a column and a row, each of which may carry a marker `$`. The markers make a reference
stay where it is when lines are inserted or deleted; they do not change which cell is meant. The
text of an address is `[$]letters[$]digits`, in either case when read and in capitals when written.
-/

namespace Spreadsheet.Grid

/-- A column and a row with the markers of a reference. -/
structure Address where
  col : Nat
  row : Nat
  colFixed : Bool
  rowFixed : Bool
  deriving DecidableEq, Repr

/-- Why a text is no address. Every case but the first carries the whole text. -/
inductive AddressError where
  | empty
  | missingColumn (text : String)
  | missingRow (text : String)
  | columnOverflow (text : String)
  | rowOverflow (text : String)
  | trailing (text : String)
  deriving DecidableEq, Repr

/-- The message of an address error. -/
def AddressError.message : AddressError → String
  | .empty => "empty address"
  | .missingColumn t => "missing column letters in '" ++ t ++ "'"
  | .missingRow t => "missing row number in '" ++ t ++ "'"
  | .columnOverflow t => "column out of range in '" ++ t ++ "'"
  | .rowOverflow t => "row out of range in '" ++ t ++ "'"
  | .trailing t => "unexpected characters in '" ++ t ++ "'"

namespace Address

/-- An address without markers. -/
def plain (col row : Nat) : Address := ⟨col, row, false, false⟩

/-- The same cell without markers. -/
def unfixed (a : Address) : Address := plain a.col a.row

/-- Whether an address lies in a grid of the given size. -/
def isWithin (a : Address) (columns rows : Nat) : Bool :=
  1 ≤ a.col && 1 ≤ a.row && a.col ≤ columns && a.row ≤ rows

/-- Splits a marker off the front. -/
def splitMarker : List Char → Bool × List Char
  | '$' :: cs => (true, cs)
  | cs => (false, cs)

/-- The value of row digits; `none` for row zero and for a row beyond the last line. -/
def rowOfDigits? (ds : List Char) : Option Nat :=
  let row := ds.foldl (fun n d => 10 * n + (d.toNat - '0'.toNat)) 0
  if 1 ≤ row ∧ row ≤ lastLine then some row else none

/-- Reads `[$]letters[$]digits`. Of several faults the leftmost is reported, except that a row out of
range comes after trailing characters. -/
def parse (text : String) : Except AddressError Address :=
  let cs := text.toList
  if cs = [] then .error .empty
  else
    let (colFixed, afterMarker) := splitMarker cs
    let letters := afterMarker.takeWhile Char.isAlpha
    if letters = [] then .error (.missingColumn text)
    else
      match readLetters 0 letters with
      | none => .error (.columnOverflow text)
      | some col =>
        let (rowFixed, afterColumn) := splitMarker (afterMarker.dropWhile Char.isAlpha)
        let digits := afterColumn.takeWhile Char.isDigit
        if digits = [] then .error (.missingRow text)
        else if afterColumn.dropWhile Char.isDigit ≠ [] then .error (.trailing text)
        else
          match rowOfDigits? digits with
          | none => .error (.rowOverflow text)
          | some row => .ok ⟨col, row, colFixed, rowFixed⟩

/-- The characters of an address. -/
def chars (a : Address) : List Char :=
  (if a.colFixed then ['$'] else []) ++ letterList a.col ++
    (if a.rowFixed then ['$'] else []) ++ Nat.toDigits 10 a.row

/-- The text of an address, column letters in capitals. -/
def text (a : Address) : String :=
  String.ofList a.chars

end Address

end Spreadsheet.Grid
