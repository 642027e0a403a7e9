import Std.Data.TreeMap
import Std.Data.TreeSet
import Spreadsheet.Grid.Rect

/-!
# Positions in a workbook

A sheet is known by a handle: the slot it occupies and how often that slot was emptied before, counted
in 32 bits. A spot is a place on some sheet, a position a place on one particular sheet. Positions are
ordered sheet by sheet and row by row, which is the order in which cells are stored, and every map and
set of the library is sorted by it.
-/

namespace Spreadsheet

/-- The handle of a sheet. -/
structure SheetId where
  index : UInt32
  generation : UInt32
  deriving DecidableEq, Repr, Inhabited

/-- A place on a sheet. -/
structure Spot where
  row : Nat
  col : Nat
  deriving DecidableEq, Repr, Inhabited

/-- A place in a workbook. -/
structure Position where
  sheet : SheetId
  row : Nat
  col : Nat
  deriving DecidableEq, Repr, Inhabited

instance : Ord SheetId := ⟨compareLex (compareOn SheetId.index) (compareOn SheetId.generation)⟩

instance : Ord Spot := ⟨compareLex (compareOn Spot.row) (compareOn Spot.col)⟩

instance : Ord Position :=
  ⟨compareLex (compareOn Position.sheet) (compareLex (compareOn Position.row) (compareOn Position.col))⟩

instance : Std.TransOrd SheetId :=
  inferInstanceAs (Std.TransCmp (compareLex (compareOn SheetId.index) (compareOn SheetId.generation)))

instance : Std.TransOrd Spot :=
  inferInstanceAs (Std.TransCmp (compareLex (compareOn Spot.row) (compareOn Spot.col)))

instance : Std.TransOrd Position :=
  inferInstanceAs (Std.TransCmp (compareLex (compareOn Position.sheet)
    (compareLex (compareOn Position.row) (compareOn Position.col))))

instance : Std.LawfulEqOrd SheetId where
  eq_of_compare {a b} h := by
    have h : (compare a.index b.index).then (compare a.generation b.generation) = .eq := h
    rw [Ordering.then_eq_eq, Std.compare_eq_iff_eq, Std.compare_eq_iff_eq] at h
    cases a; cases b; simp_all

instance : Std.LawfulEqOrd Spot where
  eq_of_compare {a b} h := by
    have h : (compare a.row b.row).then (compare a.col b.col) = .eq := h
    rw [Ordering.then_eq_eq, Std.compare_eq_iff_eq, Std.compare_eq_iff_eq] at h
    cases a; cases b; simp_all

instance : Std.LawfulEqOrd Position where
  eq_of_compare {a b} h := by
    have h : (compare a.sheet b.sheet).then
      ((compare a.row b.row).then (compare a.col b.col)) = .eq := h
    rw [Ordering.then_eq_eq, Ordering.then_eq_eq, Std.compare_eq_iff_eq, Std.compare_eq_iff_eq,
      Std.compare_eq_iff_eq] at h
    cases a; cases b; simp_all

/-- A set of positions, sorted. -/
abbrev PositionSet := Std.TreeSet Position

namespace SheetId

/-- A description of a handle, as messages have it. -/
def describe (id : SheetId) : String :=
  "SheetId \x7b index: " ++ toString id.index.toNat ++ ", generation: " ++
    toString id.generation.toNat ++ " \x7d"

end SheetId

namespace Spot

/-- The address of a spot. -/
def address (s : Spot) : Grid.Address := .plain s.col s.row

/-- The spot of an address, markers aside. -/
def ofAddress (a : Grid.Address) : Spot := ⟨a.row, a.col⟩

/-- The spot on a sheet. -/
def on (s : Spot) (sheet : SheetId) : Position := ⟨sheet, s.row, s.col⟩

end Spot

namespace Position

/-- The position without its sheet. -/
def spot (p : Position) : Spot := ⟨p.row, p.col⟩

/-- The address of a position on its sheet. -/
def address (p : Position) : Grid.Address := .plain p.col p.row

/-- The position of an address on a sheet, markers aside. -/
def ofAddress (sheet : SheetId) (a : Grid.Address) : Position := ⟨sheet, a.row, a.col⟩

end Position

end Spreadsheet
