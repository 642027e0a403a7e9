import Spreadsheet.Formula.Reference
import Spreadsheet.Workbook.Basic

/-!
# Named areas

A name stands for a rectangle on one sheet. Names are found without their case, and are listed by their
lower case.
-/

namespace Spreadsheet

open Grid

/-- A name with the area it stands for. -/
structure NamedArea where
  /-- The name as it was defined. -/
  name : String
  sheet : SheetId
  rect : Rect
  deriving DecidableEq

/-- The named areas of a workbook, by the lower case of their names. -/
structure NamedAreas where
  entries : Std.TreeMap String NamedArea := {}

namespace NamedAreas

/-- The area with a name. -/
def get? (n : NamedAreas) (name : String) : Option NamedArea := n.entries[Text.lower name]?

/-- Defines a name, in place of an earlier definition. A text that is no plain name is refused. -/
def define (n : NamedAreas) (name : String) (sheet : SheetId) (rect : Rect) :
    Except EngineError NamedAreas :=
  if isPlainName name then .ok ⟨n.entries.insert (Text.lower name) ⟨name, sheet, rect⟩⟩
  else .error (.invalidName name)

/-- Removes a name. -/
def erase (n : NamedAreas) (name : String) : NamedAreas := ⟨n.entries.erase (Text.lower name)⟩

/-- The areas, sorted by the lower case of their names. -/
def toList (n : NamedAreas) : List NamedArea := n.entries.values

/-- The image of an area under a change of the rectangles on one sheet; none if it is lost. -/
def moved (sheet : SheetId) (target : Rect → Option Rect) (area : NamedArea) : Option NamedArea :=
  if area.sheet = sheet then (target area.rect).map fun rect => { area with rect } else some area

/-- Changes the rectangles on one sheet. A name whose rectangle has no image is lost. -/
def adjust (n : NamedAreas) (sheet : SheetId) (target : Rect → Option Rect) : NamedAreas :=
  ⟨n.entries.filterMap fun _ area => moved sheet target area⟩

/-- The lower-cased names whose area changes or is lost when the rectangles on one sheet change. -/
def touched (n : NamedAreas) (sheet : SheetId) (target : Rect → Option Rect) : List String :=
  n.entries.toList.filterMap fun (key, area) =>
    if moved sheet target area = some area then none else some key

/-- Drops every name on a sheet. -/
def removeSheet (n : NamedAreas) (sheet : SheetId) : NamedAreas := n.adjust sheet fun _ => none

end NamedAreas

end Spreadsheet
