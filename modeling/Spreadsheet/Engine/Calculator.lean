import Spreadsheet.Engine.Cells
import Spreadsheet.Engine.Sheets

/-!
# A single value

The smallest use of the engine: one sheet, one cell, and the value of what is typed into it.
-/

namespace Spreadsheet

open Grid

/-- The value of a text typed into the only cell of a new engine with some functions. -/
def calculate (library : Library) (text : String) : Except EngineError Value :=
  let e : Engine := { library }
  let added := e.addSheet "Sheet1"
  match added.result with
  | .error problem => .error problem
  | .ok sheet =>
    let a := Address.plain 1 1
    let typed := added.engine.setFormula sheet a text
    match typed.result with
    | .error problem => .error problem
    | .ok () => (typed.engine.evaluateCell sheet a).result

end Spreadsheet
