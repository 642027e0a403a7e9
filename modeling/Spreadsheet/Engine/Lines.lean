import Spreadsheet.Engine.Sheets

/-!
# Lines of the engine

Inserting and deleting rows or columns on a sheet moves its cells, merged regions and named areas, and
edits the references to the sheet in all formulas. The graph is then built anew from the formulas,
and every cell becomes dirty whose formula was edited, or which reads a cell that moved or a name
whose area changed, or depends on such a cell.
-/

namespace Spreadsheet

open Grid

/-- Whether a reference in a formula on the sheet `home` refers to a sheet with a handle and a name. -/
def Reference.refersTo (r : Reference) (home id : SheetId) (name : String) : Bool :=
  match r.sheet? with
  | some sheet => Text.sameName sheet name
  | none => home == id

namespace Engine

/-- The size of the grid along an axis. -/
def limit (e : Engine) : Axis → Nat
  | .rows => e.settings.rows
  | .columns => e.settings.columns

/-- The sheet that an edit of lines is for; refused when the sheet is gone, and else when the edit
affects no line of the grid. -/
def editable (e : Engine) (id : SheetId) (edit : LineEdit) : Except EngineError Sheet :=
  match e.workbook.get id with
  | .error problem => .error problem
  | .ok sheet =>
    if edit.count = 0 ∨ edit.line = 0 ∨ e.limit edit.axis < edit.line then
      .error (.invalidRange edit.describe)
    else .ok sheet

/-- The image of a set of positions. -/
def imageOf (image : Position → Option Position) (s : PositionSet) : PositionSet :=
  Std.TreeSet.ofList (s.toList.filterMap image)

/-- Builds the graph anew from all formulas. -/
def rebuildGraph (e : Engine) : Engine :=
  { e with graph := {} }.relinkAll (e.workbook.formulaTexts.map Prod.fst)

/-- Edits the lines of a sheet, which is given as it is before the edit. -/
def shiftLines (e : Engine) (id : SheetId) (edit : LineEdit) (sheet : Sheet) : Engine :=
  let limit := e.limit edit.axis
  let image := edit.positionImage? limit id
  let rectImage := edit.rectImage? limit
  let affected := edit.affected e.settings.columns e.settings.rows
  let readers := (e.graph.readersOfRect id affected).toList ++
    (e.names.touched id rectImage).flatMap fun name => (e.graph.readersOfName name).toList
  let edited := e.editedFormulas fun p r =>
    if r.refersTo p.sheet id sheet.name then edit.newText? limit r else none
  let moved := (sheet.remap (edit.spotImage? limit)).remapMerges rectImage
  let e := { e with
    workbook := e.workbook.modifySheet id fun _ => moved
    names := e.names.adjust id rectImage }
  let edited := edited.filterMap fun (p, text) => (image p).map fun q => (q, text)
  let e := edited.foldl (fun e (p, text) => e.replaceFormula p text) e
  let shown := (sheet.spotsIn affected ++ moved.spotsIn affected).map (·.on id)
  let e := { e with
    dirty := imageOf image e.dirty
    unread := imageOf image e.unread
    changes := shown.foldl (fun s p => s.insert p) (imageOf image e.changes) }
  (e.rebuildGraph.markDirty (readers.filterMap image ++ edited.map Prod.fst)).afterEdit

/-- Inserts or deletes rows or columns. -/
def applyEdit (e : Engine) (id : SheetId) (edit : LineEdit) : Reply Unit :=
  e.edit (e.editable id edit) (e.shiftLines id edit)

end Engine

end Spreadsheet
