import Spreadsheet.Workbook.Cell
import Spreadsheet.Workbook.Position

/-!
# Sheets

A sheet stores the cells that were written to, row by row, and its merged regions. Every other cell
reads as empty. A merged region shows its first cell and hides the others, which then do not count for
formulas.
-/

namespace Spreadsheet

open Grid

/-- A sheet of a workbook. -/
structure Sheet where
  name : String
  cells : Std.TreeMap Spot Cell := {}
  merges : List Rect := []

namespace Sheet

/-- The cell stored at a spot. -/
def get? (s : Sheet) (spot : Spot) : Option Cell := s.cells[spot]?

/-- The value at a spot, stored or not. -/
def value (s : Sheet) (spot : Spot) : Value :=
  match s.get? spot with
  | some c => c.value
  | none => .empty

/-- Stores a cell. -/
def insert (s : Sheet) (spot : Spot) (c : Cell) : Sheet := { s with cells := s.cells.insert spot c }

/-- Takes a cell out of storage. -/
def erase (s : Sheet) (spot : Spot) : Sheet := { s with cells := s.cells.erase spot }

/-- Changes a stored cell. -/
def modify (s : Sheet) (spot : Spot) (change : Cell → Cell) : Sheet :=
  { s with cells := s.cells.modify spot change }

/-- The stored cells with their spots, in storage order. -/
def toList (s : Sheet) : List (Spot × Cell) := s.cells.toList

/-- The spots of stored cells, in storage order. -/
def spots (s : Sheet) : List Spot := s.cells.keys

/-- The spots of stored cells in a rectangle, in storage order. -/
def spotsIn (s : Sheet) (r : Rect) : List Spot :=
  s.spots.filter fun spot => r.contains spot.col spot.row

/-- Moves every stored cell to the spot that `target` gives it; a cell without a target is dropped. -/
def remap (s : Sheet) (target : Spot → Option Spot) : Sheet :=
  { s with
    cells := s.toList.foldl
      (fun moved (spot, cell) =>
        match target spot with
        | some new => moved.insert new cell
        | none => moved) {} }

/-- Adds a merged region; `none` for a single cell and for one that overlaps another region. -/
def addMerge (s : Sheet) (r : Rect) : Option Sheet :=
  if r.isSingle || s.merges.any (fun m => m.intersects r) then none
  else some { s with merges := s.merges ++ [r] }

/-- Removes a merged region; `none` if there is no such region. -/
def removeMerge (s : Sheet) (r : Rect) : Option Sheet :=
  if r ∈ s.merges then some { s with merges := s.merges.filter (· ≠ r) } else none

/-- Changes every merged region; one that has no image or only one cell left is dropped. -/
def remapMerges (s : Sheet) (target : Rect → Option Rect) : Sheet :=
  { s with merges := (s.merges.filterMap target).filter fun m => !m.isSingle }

/-- The merged region that a spot lies in. -/
def mergeAt? (s : Sheet) (spot : Spot) : Option Rect :=
  s.merges.find? fun m => m.contains spot.col spot.row

/-- Whether a spot is hidden by a merged region. -/
def isObscured (s : Sheet) (spot : Spot) : Bool :=
  (s.mergeAt? spot).any fun m => !(m.left == spot.col && m.top == spot.row)

end Sheet

end Spreadsheet
