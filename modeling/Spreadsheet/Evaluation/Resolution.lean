import Spreadsheet.Workbook.NamedArea

/-!
# Resolving references

A reference in a formula becomes an area of the workbook: one cell, or a rectangle on one sheet. What
it is resolved against is a scope: the sheets and areas that have names, and the size of the grid. A
reference without a qualifier means the sheet of its formula.
-/

namespace Spreadsheet

open Grid

/-- The cells that a reference means. A single cell keeps apart from a rectangle of one cell, as a
function takes the second for a range. -/
inductive Area where
  | point (p : Position)
  | range (sheet : SheetId) (rect : Rect)
  deriving DecidableEq

namespace Area

/-- The sheet of an area. -/
def sheet : Area → SheetId
  | .point p => p.sheet
  | .range s _ => s

/-- The rectangle of an area. -/
def rect : Area → Rect
  | .point p => Rect.single p.col p.row
  | .range _ r => r

/-- Whether a position belongs to an area. -/
def covers : Area → Position → Bool
  | .point p, q => p == q
  | .range s r, q => s == q.sheet && r.contains q.col q.row

theorem covers_iff (a : Area) (q : Position) :
    a.covers q = true ↔ a.sheet = q.sheet ∧ a.rect.contains q.col q.row = true := by
  cases a with
  | point p =>
    cases p; cases q
    simp only [covers, beq_iff_eq, Position.mk.injEq, sheet, rect, Rect.contains, Rect.single]
    constructor
    · rintro ⟨rfl, rfl, rfl⟩; simp
    · rintro ⟨rfl, h⟩
      simp only [Bool.and_eq_true] at h
      obtain ⟨⟨⟨h₁, h₂⟩, h₃⟩, h₄⟩ := h
      exact ⟨rfl, Nat.le_antisymm (of_decide_eq_true h₃) (of_decide_eq_true h₄),
        Nat.le_antisymm (of_decide_eq_true h₁) (of_decide_eq_true h₂)⟩
  | range s r => simp [covers, sheet, rect]

end Area

/-- Why a reference means no area. -/
inductive ResolutionProblem where
  | malformed
  | unknownSheet
  | unknownName
  | outOfBounds
  deriving DecidableEq, Repr

/-- The cause of error for a formula with a reference that means no area. -/
def ResolutionProblem.cause (written : String) : ResolutionProblem → Cause
  | .malformed => .malformedReference written
  | .unknownSheet => .unknownSheet written
  | .unknownName => .unknownName written
  | .outOfBounds => .outsideGrid written

/-- The error value of a formula with a reference that means no area. -/
def ResolutionProblem.toError (written : String) (problem : ResolutionProblem) : ErrorValue :=
  (problem.cause written).toError

/-- What references are resolved against. -/
structure Scope where
  sheet? : String → Option SheetId
  area? : String → Option (SheetId × Rect)
  columns : Nat
  rows : Nat

namespace Scope

/-- The sheet that a qualifier means, for a formula on the sheet `current`. -/
def qualified? (s : Scope) (current : SheetId) : Option String → Option SheetId
  | some name => s.sheet? name
  | none => some current

/-- The area that a reference means in a formula on the sheet `current`. -/
def resolve (s : Scope) (r : Reference) (current : SheetId) : Except ResolutionProblem Area :=
  match r with
  | .cell sheet address =>
    match s.qualified? current sheet with
    | none => .error .unknownSheet
    | some id =>
      if address.isWithin s.columns s.rows then .ok (.point (.ofAddress id address))
      else .error .outOfBounds
  | .range sheet first last =>
    match s.qualified? current sheet with
    | none => .error .unknownSheet
    | some id =>
      let rect := Rect.ofCorners first last
      if rect.isWithin s.columns s.rows then .ok (.range id rect) else .error .outOfBounds
  | .name name =>
    match s.area? name with
    | some (id, rect) => .ok (.range id rect)
    | none => .error .unknownName

/-- The area that the text of a reference means. -/
def resolveText (s : Scope) (text : String) (current : SheetId) : Except ResolutionProblem Area :=
  match Reference.parse text with
  | .ok r => s.resolve r current
  | .error _ => .error .malformed

end Scope

end Spreadsheet
