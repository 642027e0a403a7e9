import Spreadsheet.Text.Blank
import Spreadsheet.Text.Case
import Spreadsheet.Workbook.Sheet

/-!
# Workbooks

A workbook owns its sheets in slots and lists them in the order in which they were added. A removed
sheet leaves its slot free for a later one, and the slot counts how often that happened, so that the
handle of a removed sheet does not lead to its successor. Sheet names are compared without their case.

`EngineError` lists the ways in which a call can be refused; it is here because sheets are what most
calls name.
-/

namespace Spreadsheet

open Grid

/-- Why a call was refused. -/
inductive EngineError where
  | unknownSheet (name : String)
  | staleSheet (id : SheetId)
  | duplicateSheet (name : String)
  | invalidSheetName (name : String)
  | outOfBounds (address : Address) (columns rows : Nat)
  | invalidName (name : String)
  | invalidRange (what : String)
  deriving DecidableEq, Repr

/-- The message of a refused call. -/
def EngineError.message : EngineError → String
  | .unknownSheet name => "no sheet named '" ++ name ++ "'"
  | .staleSheet id => "sheet handle " ++ id.describe ++ " no longer refers to a live sheet"
  | .duplicateSheet name => "a sheet named '" ++ name ++ "' already exists"
  | .invalidSheetName name => "'" ++ name ++ "' is not a valid sheet name"
  | .outOfBounds address columns rows =>
    address.text ++ " is outside the " ++ toString columns ++ "x" ++ toString rows ++ " grid"
  | .invalidName name => "'" ++ name ++ "' is not a valid name"
  | .invalidRange what => "invalid range: " ++ what

/-- A place for a sheet, and how often it was emptied. -/
structure Slot where
  generation : UInt32
  sheet : Option Sheet

/-- The sheets of a workbook: its slots, the free ones (last emptied first), and the handles of the
sheets in their order. -/
structure Workbook where
  slots : Array Slot := #[]
  free : List UInt32 := []
  order : List SheetId := []

/-- The most characters a sheet name has. -/
def longestSheetName : Nat := 31

/-- Characters that a sheet name cannot have. -/
def forbiddenInSheetNames : List Char := ['!', '\'', ':', '[', ']', '*', '?', '/', '\\']

/-- Whether a text can name a sheet: it has a character that is no blank, is not too long, and has no
character with a meaning of its own in references. -/
def isSheetName (s : String) : Bool :=
  Text.trimBlanks s != "" && s.length ≤ longestSheetName &&
    !s.toList.any (forbiddenInSheetNames.contains ·)

/-- Refuses a text that cannot name a sheet. -/
def checkSheetName (s : String) : Except EngineError Unit :=
  if isSheetName s then .ok () else .error (.invalidSheetName s)

namespace Workbook

/-- The sheet with a handle, if it has not been removed. -/
def sheet? (w : Workbook) (id : SheetId) : Option Sheet :=
  match w.slots[id.index.toNat]? with
  | some slot => if slot.generation = id.generation then slot.sheet else none
  | none => none

/-- The sheet with a handle; a handle of a removed sheet is refused. -/
def get (w : Workbook) (id : SheetId) : Except EngineError Sheet :=
  match w.sheet? id with
  | some s => .ok s
  | none => .error (.staleSheet id)

/-- Whether a handle leads to a sheet. -/
def contains (w : Workbook) (id : SheetId) : Bool := (w.sheet? id).isSome

/-- The sheet with a name. -/
def sheetId? (w : Workbook) (name : String) : Option SheetId :=
  w.order.find? fun id =>
    match w.sheet? id with
    | some s => Text.sameName s.name name
    | none => false

/-- The sheets with their handles, in order. -/
def sheets (w : Workbook) : List (SheetId × Sheet) :=
  w.order.filterMap fun id => (w.sheet? id).map fun s => (id, s)

/-- Changes the sheet with a handle, if it is there. -/
def modifySheet (w : Workbook) (id : SheetId) (change : Sheet → Sheet) : Workbook :=
  if w.contains id then
    { w with
      slots := w.slots.modify id.index.toNat fun slot => { slot with sheet := slot.sheet.map change } }
  else w

/-- Adds a sheet behind the others, in the slot emptied last or in a new one. -/
def addSheet (w : Workbook) (name : String) : Except EngineError (Workbook × SheetId) :=
  match checkSheetName name with
  | .error e => .error e
  | .ok () =>
    if (w.sheetId? name).isSome then .error (.duplicateSheet name)
    else
      let sheet : Sheet := { name }
      match w.free with
      | index :: free =>
        let generation := (w.slots[index.toNat]?.map Slot.generation).getD 0
        let id : SheetId := ⟨index, generation⟩
        .ok ({ slots := w.slots.modify index.toNat fun slot => { slot with sheet := some sheet }
               free := free
               order := w.order ++ [id] }, id)
      | [] =>
        let id : SheetId := ⟨UInt32.ofNat w.slots.size, 0⟩
        .ok ({ slots := w.slots.push ⟨0, some sheet⟩
               free := []
               order := w.order ++ [id] }, id)

/-- Removes a sheet and frees its slot. -/
def removeSheet (w : Workbook) (id : SheetId) : Except EngineError (Workbook × Sheet) :=
  match w.get id with
  | .error e => .error e
  | .ok sheet =>
    .ok ({ slots := w.slots.modify id.index.toNat fun slot => ⟨slot.generation + 1, none⟩
           free := id.index :: w.free
           order := w.order.filter (· ≠ id) }, sheet)

/-- Renames a sheet and returns its name so far. A name that another sheet has is refused before a
handle that leads nowhere. -/
def renameSheet (w : Workbook) (id : SheetId) (name : String) :
    Except EngineError (Workbook × String) :=
  match checkSheetName name with
  | .error e => .error e
  | .ok () =>
    if (w.sheetId? name).any (· ≠ id) then .error (.duplicateSheet name)
    else
      match w.get id with
      | .error e => .error e
      | .ok sheet => .ok (w.modifySheet id fun s => { s with name }, sheet.name)

/-! ### Cells -/

/-- The cell stored at a position. -/
def cell? (w : Workbook) (p : Position) : Option Cell :=
  (w.sheet? p.sheet).bind fun s => s.get? p.spot

/-- The value at a position, stored or not. -/
def value (w : Workbook) (p : Position) : Value :=
  match w.sheet? p.sheet with
  | some s => s.value p.spot
  | none => .empty

/-- Whether a position is hidden by a merged region. -/
def isObscured (w : Workbook) (p : Position) : Bool :=
  (w.sheet? p.sheet).any fun s => s.isObscured p.spot

/-- Stores a cell on a sheet that is there. -/
def insertCell (w : Workbook) (p : Position) (c : Cell) : Workbook :=
  w.modifySheet p.sheet fun s => s.insert p.spot c

/-- Takes a cell out of storage. -/
def eraseCell (w : Workbook) (p : Position) : Workbook :=
  w.modifySheet p.sheet fun s => s.erase p.spot

/-- Changes a stored cell. -/
def modifyCell (w : Workbook) (p : Position) (change : Cell → Cell) : Workbook :=
  w.modifySheet p.sheet fun s => s.modify p.spot change

/-- The positions of stored cells, sheet by sheet in their order. -/
def positions (w : Workbook) : List Position :=
  w.sheets.flatMap fun (id, s) => s.spots.map (·.on id)

/-- The texts of all formulas with their positions, sheet by sheet in their order. -/
def formulaTexts (w : Workbook) : List (Position × String) :=
  w.sheets.flatMap fun (id, s) =>
    s.toList.filterMap fun (spot, c) => c.formulaText?.map fun t => (spot.on id, t)

end Workbook

end Spreadsheet
