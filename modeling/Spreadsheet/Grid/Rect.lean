import Spreadsheet.Grid.Address

/-!
# Rectangles

A rectangle of cells is given by its first and last column and row, all included; that the first is not
behind the last is part of the type. Two corners in any order span a rectangle.
-/

namespace Spreadsheet.Grid

/-- The cells from column `left` to `right` and from row `top` to `bottom`. -/
structure Rect where
  left : Nat
  top : Nat
  right : Nat
  bottom : Nat
  left_le_right : left ≤ right
  top_le_bottom : top ≤ bottom
  deriving DecidableEq

namespace Rect

/-- The rectangle that two corners span. -/
def span (col₁ row₁ col₂ row₂ : Nat) : Rect :=
  ⟨min col₁ col₂, min row₁ row₂, max col₁ col₂, max row₁ row₂, by omega, by omega⟩

/-- The rectangle that two addresses span, markers aside. -/
def ofCorners (a b : Address) : Rect := span a.col a.row b.col b.row

/-- A rectangle of one cell. -/
def single (col row : Nat) : Rect := ⟨col, row, col, row, by omega, by omega⟩

/-- The first address of a rectangle. -/
def topLeft (r : Rect) : Address := .plain r.left r.top

/-- The last address of a rectangle. -/
def bottomRight (r : Rect) : Address := .plain r.right r.bottom

/-- How many lines there are from one line to another, counted in 32 bits. -/
def lineCount (first last : Nat) : Nat := (last - first + 1) % Nat.pow 2 32

/-- The number of columns. -/
def width (r : Rect) : Nat := lineCount r.left r.right

/-- The number of rows. -/
def height (r : Rect) : Nat := lineCount r.top r.bottom

/-- Whether a rectangle has one cell. -/
def isSingle (r : Rect) : Bool := r.left == r.right && r.top == r.bottom

/-- Whether a position lies in a rectangle. -/
def contains (r : Rect) (col row : Nat) : Bool :=
  r.left ≤ col && col ≤ r.right && r.top ≤ row && row ≤ r.bottom

/-- Whether a rectangle lies in another. -/
def containsRect (r s : Rect) : Bool :=
  r.contains s.left s.top && r.contains s.right s.bottom

/-- Whether two rectangles share a cell. -/
def intersects (r s : Rect) : Bool :=
  r.left ≤ s.right && s.left ≤ r.right && r.top ≤ s.bottom && s.top ≤ r.bottom

/-- Whether a rectangle lies in a grid of the given size. -/
def isWithin (r : Rect) (columns rows : Nat) : Bool :=
  r.topLeft.isWithin columns rows && r.bottomRight.isWithin columns rows

/-- Reads one address or two with a colon between them; the markers are dropped. -/
def parse (text : String) : Except AddressError Rect :=
  let cs := text.toList
  let first := cs.takeWhile (· ≠ ':')
  match cs.dropWhile (· ≠ ':') with
  | [] => do
    let a ← Address.parse text
    pure (single a.col a.row)
  | _ :: second => do
    let a ← Address.parse (String.ofList first)
    let b ← Address.parse (String.ofList second)
    pure (ofCorners a b)

/-- A single cell is written as one address, any other rectangle as two. -/
def text (r : Rect) : String :=
  if r.isSingle then r.topLeft.text else r.topLeft.text ++ ":" ++ r.bottomRight.text

/-- Rectangles in order of their top, left, bottom and right line. -/
def order (r s : Rect) : Ordering :=
  (compare r.top s.top).then <| (compare r.left s.left).then <|
    (compare r.bottom s.bottom).then (compare r.right s.right)

instance : Ord Rect := ⟨order⟩

end Rect

end Spreadsheet.Grid
