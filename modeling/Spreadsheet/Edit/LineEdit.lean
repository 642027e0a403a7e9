import Spreadsheet.Grid.Rect
import Spreadsheet.Workbook.Position

/-!
# Inserting and deleting lines

Rows and columns are inserted and deleted alike, so an edit names its axis, what it does, the first
line it affects, and how many lines it inserts or deletes. Everything on the grid then moves along:

* a stored cell moves with its line and is lost when its line is deleted or pushed off the grid;
* a reference to a cell moves with the cell, unless it is fixed on the axis of the edit;
* a range keeps the lines that are left of it: an edge whose line is deleted moves to the nearest
  line that is left inside, and the range is lost when there is none.

The size of the grid along the axis is passed as `limit`.
-/

namespace Spreadsheet

open Grid

/-- What the lines of an edit are. -/
inductive Axis where
  | rows
  | columns
  deriving DecidableEq, Repr

/-- The name of an axis. -/
def Axis.name : Axis → String
  | .rows => "Rows"
  | .columns => "Columns"

/-- What an edit does with lines. -/
inductive LineChange where
  | insertion
  | deletion
  deriving DecidableEq, Repr

/-- Lines inserted before, or deleted from, the line `line` on. -/
structure LineEdit where
  axis : Axis
  change : LineChange
  line : Nat
  count : Nat
  deriving DecidableEq, Repr

namespace LineEdit

/-- A description of an edit, as messages have it. -/
def describe (e : LineEdit) : String :=
  let (verb, field) := match e.change with
    | .insertion => ("Insert", "before")
    | .deletion => ("Delete", "start")
  verb ++ e.axis.name ++ " \x7b " ++ field ++ ": " ++ toString e.line ++ ", count: " ++
    toString e.count ++ " \x7d"

/-! ### Lines -/

/-- Where a line goes; none if it is deleted. -/
def moved? (e : LineEdit) (line : Nat) : Option Nat :=
  if line < e.line then some line
  else
    match e.change with
    | .insertion => some (advance line e.count)
    | .deletion => if line - e.line < e.count then none else some (line - e.count)

/-- Where a line goes that stays on the grid. -/
def image? (e : LineEdit) (limit line : Nat) : Option Nat :=
  match e.moved? line with
  | some n => if n ≤ limit then some n else none
  | none => none

/-- Where the first line of a range goes: if it is deleted, to the first line after the deletion. -/
def lowEdge (e : LineEdit) (line : Nat) : Nat := (e.moved? line).getD e.line

/-- Where the last line of a range goes: if it is deleted, to the last line before the deletion. -/
def highEdge? (e : LineEdit) (line : Nat) : Option Nat :=
  match e.moved? line with
  | some n => some n
  | none => if 2 ≤ e.line then some (e.line - 1) else none

/-! ### Cells and references -/

/-- The spot that a stored cell moves to. -/
def spotImage? (e : LineEdit) (limit : Nat) (s : Spot) : Option Spot :=
  match e.axis with
  | .rows => (e.image? limit s.row).map fun row => { s with row }
  | .columns => (e.image? limit s.col).map fun col => { s with col }

/-- The position that a stored cell moves to when a sheet is edited. -/
def positionImage? (e : LineEdit) (limit : Nat) (sheet : SheetId) (p : Position) : Option Position :=
  if p.sheet = sheet then (e.spotImage? limit p.spot).map (·.on sheet) else some p

/-- The line of an address along the axis. -/
def lineOf (e : LineEdit) (a : Address) : Nat :=
  match e.axis with
  | .rows => a.row
  | .columns => a.col

/-- Whether an address is fixed on the axis. -/
def isFixed (e : LineEdit) (a : Address) : Bool :=
  match e.axis with
  | .rows => a.rowFixed
  | .columns => a.colFixed

/-- An address moved to another line. -/
def withLine (e : LineEdit) (a : Address) (line : Nat) : Address :=
  match e.axis with
  | .rows => { a with row := line }
  | .columns => { a with col := line }

/-- What a reference to a single cell becomes. -/
def addressImage? (e : LineEdit) (limit : Nat) (a : Address) : Option Address :=
  if e.isFixed a then some a else (e.image? limit (e.lineOf a)).map (e.withLine a)

/-- What a range becomes whose corners do not stand in reverse order along the axis. -/
def orderedImage? (e : LineEdit) (limit : Nat) (low high : Address) : Option (Address × Address) :=
  let first := if e.isFixed low then e.lineOf low else e.lowEdge (e.lineOf low)
  match if e.isFixed high then some (e.lineOf high) else e.highEdge? (e.lineOf high) with
  | none => none
  | some last =>
    if first ≤ last ∧ first ≤ limit then
      some (e.withLine low first, e.withLine high (min last limit))
    else none

/-- What a range becomes. Corners that are given in reverse order along the axis change places. -/
def rangeImage? (e : LineEdit) (limit : Nat) (a b : Address) : Option (Address × Address) :=
  if e.lineOf a ≤ e.lineOf b then e.orderedImage? limit a b else e.orderedImage? limit b a

/-- What a rectangle becomes, as a merged region or a named area. -/
def rectImage? (e : LineEdit) (limit : Nat) (r : Rect) : Option Rect :=
  (e.rangeImage? limit r.topLeft r.bottomRight).map fun (a, b) => Rect.ofCorners a b

/-- The part of a grid whose lines move or disappear. -/
def affected (e : LineEdit) (columns rows : Nat) : Rect :=
  match e.axis with
  | .rows => Rect.span 1 e.line columns rows
  | .columns => Rect.span e.line 1 columns rows

end LineEdit

end Spreadsheet
