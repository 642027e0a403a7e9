import Spreadsheet.Engine.Cells

/-!
# Saving and loading cells

A cell is saved as a text and its value. The text of a formula is the formula; a constant is saved as
the text that would be typed for it. A text constant that would be read back as something else is saved
behind a mark, an apostrophe, which is dropped when it is loaded.

A loaded formula is neither read nor linked until the next pass, so that the order in which cells are
loaded does not matter; until then it keeps the value it was saved with.
-/

namespace Spreadsheet

open Grid

/-- What is saved of a cell. -/
structure SavedCell where
  /-- The text of the formula, or of the constant. -/
  text : String
  value : Value

/-- The mark before a saved text that is text whatever it looks like. -/
def textMark : Char := '\''

/-- Whether a text constant would be read back as something else. -/
def isAmbiguous (locale : Locale) (s : String) : Bool :=
  match s.toList with
  | c :: _ => c == '=' || c == textMark || !(Value.ofConstant locale s).same (.text s)
  | [] => true

/-- The saved text of a constant. -/
def savedText (locale : Locale) : Value → String
  | .text s => if isAmbiguous locale s then String.ofList (textMark :: s.toList) else s
  | v => v.sourceText locale.decimal

namespace Engine

/-- What is saved of a stored cell. -/
def savedCell (e : Engine) (c : Cell) : SavedCell :=
  match c.content with
  | .formula f => ⟨f.text, c.value⟩
  | .constant v => ⟨savedText e.settings.locale v, c.value⟩

/-- What is saved of a cell; nothing if it is not stored. -/
def saveCell (e : Engine) (sheet : SheetId) (a : Address) : Except EngineError (Option SavedCell) :=
  (e.locate sheet a).map fun p => (e.cell? p).map e.savedCell

/-- What is saved of the cells of a sheet, in storage order; refused when a cell is stored outside the
grid. -/
def saveSheet (e : Engine) (id : SheetId) : Except EngineError (List (Address × SavedCell)) :=
  match e.workbook.get id with
  | .error problem => .error problem
  | .ok sheet =>
    sheet.toList.mapM fun (spot, c) => (e.locate id spot.address).map fun _ => (spot.address, e.savedCell c)

/-- Stores a constant that was loaded. -/
def loadConstant (e : Engine) (p : Position) (v : Value) : Engine :=
  ((e.take p).store p (.constant v)).markDirty [p]

/-- Stores a formula that was loaded, with the value it was saved with. -/
def loadFormula (e : Engine) (p : Position) (text : String) (value : Value) : Engine :=
  let e := (e.take p).store p (.loaded text value)
  { e with unread := e.unread.insert p, dirty := e.dirty.insert p }

/-- Stores what was saved of a cell. -/
def loadCell (e : Engine) (sheet : SheetId) (a : Address) (saved : SavedCell) : Reply Unit :=
  e.edit (e.locate sheet a) fun p =>
    match saved.text.toList with
    | '=' :: _ => e.loadFormula p saved.text saved.value
    | c :: rest =>
      if c = textMark then e.loadConstant p (.text (String.ofList rest))
      else e.loadConstant p (Value.ofConstant e.settings.locale saved.text)
    | [] => e.emptyCell p

end Engine

end Spreadsheet
