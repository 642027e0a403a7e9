import Spreadsheet.Edit.Substitution
import Spreadsheet.Engine.Basic

/-!
# Sheets of the engine

Adding, removing and renaming sheets changes what the references in formulas mean. A formula that could
not be resolved may be so once a sheet is added or renamed, and the readers of a removed sheet turn into
reference errors. When a sheet is renamed, every qualifier that names it is replaced, in the texts of
all formulas.
-/

namespace Spreadsheet

namespace Engine

/-- Replaces the text of the formula at a position, which then counts as read. -/
def replaceFormula (e : Engine) (p : Position) (text : String) : Engine :=
  { e with
    workbook := e.workbook.modifyCell p fun c => c.replaceFormula text (e.readFormula text)
    unread := e.unread.erase p }

/-- The formulas whose text changes when references are edited, with their new texts. The edit is
told in which cell a reference stands. A text that is no formula stays. -/
def editedFormulas (e : Engine) (edit : Position → Reference → Option String) :
    List (Position × String) :=
  e.workbook.formulaTexts.filterMap fun (p, text) =>
    match editReferences e.settings.locale text (edit p) with
    | .ok (some new) => some (p, new)
    | _ => none

/-- Links the formulas that could not be resolved again. -/
def relinkUnresolved (e : Engine) : Engine :=
  let ps := e.graph.unresolved.toList
  if ps.isEmpty then e else (e.relinkAll ps).markDirty ps

/-- Adds a sheet behind the others and answers its handle. -/
def addSheet (e : Engine) (name : String) : Reply SheetId :=
  e.perform (e.workbook.addSheet name) fun (workbook, id) =>
    ({ e with workbook }.relinkUnresolved.afterEdit, id)

/-- The cells on other sheets that read a sheet, directly or by a name that is lost with it. -/
def readersLeftBehind (e : Engine) (id : SheetId) : List Position :=
  let byName := (e.names.touched id fun _ => none).flatMap fun name =>
    (e.graph.readersOfName name).toList
  let readers := byName.foldl (fun s p => s.insert p) (e.graph.readersOfSheet id)
  readers.toList.filter fun p => p.sheet ≠ id

/-- Removes a sheet with its cells and the names on it. -/
def removeSheet (e : Engine) (id : SheetId) : Reply Unit :=
  e.edit (e.workbook.removeSheet id) fun (workbook, sheet) =>
    let readers := e.readersLeftBehind id
    let elsewhere := fun (p : Position) => p.sheet != id
    let erased := sheet.spots.map fun spot => spot.on id
    let e := { e with
      workbook
      names := e.names.removeSheet id
      graph := erased.foldl DependencyGraph.clear e.graph
      dirty := e.dirty.filter elsewhere
      unread := e.unread.filter elsewhere
      changes := e.changes.filter elsewhere }
    ((e.relinkAll readers).markDirty readers).afterEdit

/-- The new text of a reference when a sheet gets another name; `none` for a reference to another
sheet. -/
def requalify (old new : String) (r : Reference) : Option String :=
  match r.sheet? with
  | some sheet => if Text.sameName sheet old then some (r.withSheet (some new)).text else none
  | none => none

/-- Changes the name of a sheet in its own place and in all formulas. -/
def renameSheet (e : Engine) (id : SheetId) (name : String) : Reply Unit :=
  e.edit (e.workbook.renameSheet id name) fun (workbook, old) =>
    let e := { e with workbook }
    if old = name then e
    else
      let edited := e.editedFormulas fun _ r => requalify old name r
      let e := edited.foldl (fun e (p, text) => (e.replaceFormula p text).relink p) e
      let unresolved := e.graph.unresolved.toList
      ((e.relinkAll unresolved).markDirty (edited.map Prod.fst ++ unresolved)).afterEdit

/-- The handle of the sheet with a name. -/
def sheetId? (e : Engine) (name : String) : Option SheetId := e.workbook.sheetId? name

/-- The name of a sheet. -/
def sheetName? (e : Engine) (id : SheetId) : Option String := (e.workbook.sheet? id).map Sheet.name

/-- The names of all sheets in order. -/
def sheetNames (e : Engine) : List String := e.workbook.sheets.map fun (_, s) => s.name

end Engine

end Spreadsheet
