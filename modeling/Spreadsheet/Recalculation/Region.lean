import Spreadsheet.Workbook.Position

/-!
# Changed regions

After a recalculation the cells whose value has changed are reported as rectangles. In each row the
changed columns fall into runs that are as long as possible; runs with the same columns in consecutive
rows are stacked into one rectangle. The order in which cells are given, and repetitions among them, do
not matter.
-/

namespace Spreadsheet

open Grid

/-- A rectangle of changed cells on one sheet. -/
structure Region where
  sheet : SheetId
  rect : Rect
  deriving DecidableEq

namespace Region

/-- Regions sheet by sheet, and on a sheet in the order of rectangles. -/
def order (a b : Region) : Ordering :=
  (compare a.sheet b.sheet).then (Rect.order a.rect b.rect)

/-- Whether a position lies in a region. -/
def covers (r : Region) (p : Position) : Bool :=
  r.sheet == p.sheet && r.rect.contains p.col p.row

/-- The maximal runs of consecutive numbers in an ascending list, as first and last number. -/
def runs : List Nat → List (Nat × Nat)
  | [] => []
  | c :: cs =>
    match runs cs with
    | [] => [(c, c)]
    | (first, last) :: rest =>
      if first = c + 1 then (c, last) :: rest else (c, c) :: (first, last) :: rest

/-- Whether a rectangle ends in the row above a run with the same columns. -/
def continues (r : Rect) (row : Nat) (run : Nat × Nat) : Bool :=
  r.left == run.1 && r.right == run.2 && r.bottom + 1 == row

/-- The rectangle that a run in a row continues, or begins. -/
def stack (above : List Rect) (row : Nat) (run : Nat × Nat) : Rect :=
  match above.find? fun r => continues r row run with
  | some r => Rect.span run.1 r.top run.2 row
  | none => Rect.span run.1 row run.2 row

/-- Rectangles made of the runs of some rows in ascending order; `above` are the rectangles that end
in the row before. -/
def stackRows (above : List Rect) : List (Nat × List Nat) → List Rect
  | [] => above
  | (row, cols) :: rows =>
    let found := runs cols
    let finished := above.filter fun r => !found.any (continues r row)
    finished ++ stackRows (found.map (stack above row)) rows

/-- The columns of positions that lie row by row, each row once. -/
def rowsOf (ps : List Position) : List (Nat × List Nat) :=
  (ps.splitBy fun p q => p.row == q.row).filterMap fun row =>
    row.head?.map fun p => (p.row, row.map Position.col)

/-- The regions that some cells make up. -/
def ofCells (cells : List Position) : List Region :=
  let sorted := (Std.TreeSet.ofList cells).toList
  let regions := (sorted.splitBy fun p q => p.sheet == q.sheet).flatMap fun ps =>
    match ps with
    | [] => []
    | p :: _ => (stackRows [] (rowsOf ps)).map fun rect => ⟨p.sheet, rect⟩
  regions.mergeSort fun a b => (order a b).isLE

end Region

end Spreadsheet
