import Spreadsheet.Evaluation.Basic

/-!
# Settings, and the workbook as something to evaluate in

A workbook with its named areas is a scope for references and, with the function library, a context for
formulas. A named area counts only while its sheet is there.
-/

namespace Spreadsheet

/-- The choices made for an engine once and for all. -/
structure Settings where
  locale : Locale := .invariant
  /-- Recalculate all dirty cells after every edit. -/
  autoRecalculate : Bool := false
  /-- The width of the grid. -/
  columns : Nat := 26 * 26
  /-- The height of the grid. -/
  rows : Nat := 0x7FFF

namespace Workbook

/-- What references mean in a workbook with named areas. -/
def scope (w : Workbook) (names : NamedAreas) (settings : Settings) : Scope where
  sheet? := w.sheetId?
  area? name :=
    match names.get? name with
    | some area => if w.contains area.sheet then some (area.sheet, area.rect) else none
    | none => none
  columns := settings.columns
  rows := settings.rows

/-- What formulas read in a workbook with named areas. -/
def context (w : Workbook) (names : NamedAreas) (settings : Settings) (library : Library) :
    EvaluationContext where
  locale := settings.locale
  resolve := (w.scope names settings).resolve
  sheetName? id := (w.sheet? id).map Sheet.name
  value := w.value
  isObscured := w.isObscured
  function? := library.find?

end Workbook

end Spreadsheet
