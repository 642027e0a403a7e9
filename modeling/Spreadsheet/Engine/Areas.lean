import Spreadsheet.Engine.Basic

/-!
# Named areas and merged regions of the engine

A name that is defined or removed is looked up again by every formula that has it. A merged region hides
cells from formulas, so the formulas that read any cell of a region become dirty when it comes or goes.
-/

namespace Spreadsheet

open Grid

namespace Engine

/-- Links the formulas that look up a name again and marks them dirty. -/
def refreshName (e : Engine) (name : String) : Engine :=
  let readers := (e.graph.readersOfName name).toList
  ((e.relinkAll readers).markDirty readers).afterEdit

/-- The named areas after a definition; refused when the sheet is gone, when the rectangle does not
lie in the grid, and when the name is not plain. -/
def definition (e : Engine) (name : String) (sheet : SheetId) (rect : Rect) :
    Except EngineError NamedAreas :=
  match e.workbook.get sheet with
  | .error problem => .error problem
  | .ok _ => if e.fits rect then e.names.define name sheet rect else .error (.invalidRange rect.text)

/-- Defines a name, in place of an earlier definition. -/
def defineName (e : Engine) (name : String) (sheet : SheetId) (rect : Rect) : Reply Unit :=
  e.edit (e.definition name sheet rect) fun names => { e with names }.refreshName name

/-- Removes a name and answers whether there was one. -/
def removeName (e : Engine) (name : String) : Bool × Engine :=
  match e.names.get? name with
  | none => (false, e)
  | some _ => (true, { e with names := e.names.erase name }.refreshName name)

/-- The area with a name. -/
def namedArea? (e : Engine) (name : String) : Option NamedArea := e.names.get? name

/-- Puts another state of a sheet in its place and marks the readers of a rectangle on it dirty. -/
def replaceMerges (e : Engine) (id : SheetId) (rect : Rect) (sheet : Sheet) : Engine :=
  let workbook := e.workbook.modifySheet id fun _ => sheet
  ({ e with workbook }.markDirty (e.graph.readersOfRect id rect).toList).afterEdit

/-- A sheet with one more merged region; refused when the rectangle does not lie in the grid, when the
sheet is gone, and when the sheet cannot have such a region. -/
def merged (e : Engine) (id : SheetId) (rect : Rect) : Except EngineError Sheet :=
  if e.fits rect then
    match e.workbook.get id with
    | .error problem => .error problem
    | .ok sheet =>
      match sheet.addMerge rect with
      | some sheet => .ok sheet
      | none =>
        .error (.invalidRange (rect.text ++ " is a single cell or overlaps an existing merge"))
  else .error (.invalidRange rect.text)

/-- Merges the cells of a rectangle. -/
def mergeCells (e : Engine) (id : SheetId) (rect : Rect) : Reply Unit :=
  e.edit (e.merged id rect) (e.replaceMerges id rect)

/-- Undoes a merge and answers whether there was one. -/
def unmergeCells (e : Engine) (id : SheetId) (rect : Rect) : Reply Bool :=
  e.perform (e.workbook.get id) fun sheet =>
    match sheet.removeMerge rect with
    | some sheet => (e.replaceMerges id rect sheet, true)
    | none => (e, false)

end Engine

end Spreadsheet
