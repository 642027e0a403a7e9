import Spreadsheet.Engine.Basic
import Spreadsheet.Formula.Expr.Printer

/-!
# Cells of the engine

Writing to cells and reading them. A text that starts with `=` is a formula and is kept even if it
cannot be read; then its value is the syntax error. Any other text is a constant, and the empty text
empties the cell. A formula starts from the value that the cell had before, so the next pass can tell
whether it changed.

Reading never computes anything, `evaluateCell` aside: a dirty cell shows the value it had.
-/

namespace Spreadsheet

open Grid

namespace Engine

/-! ### Writing -/

/-- Empties a cell. Nothing happens if nothing is stored. -/
def emptyCell (e : Engine) (p : Position) : Engine :=
  match e.workbook.cell? p with
  | none => e
  | some previous =>
    let e := e.take p
    let e := { e with
      dirty := e.dirty.erase p
      changes := if previous.value.isEmpty then e.changes else e.changes.insert p }
    (e.markDirty [p]).afterEdit

/-- Whether a position shows something else than a value before that value is stored there. -/
def differsFrom (e : Engine) (p : Position) (v : Value) : Bool :=
  match e.workbook.cell? p with
  | some c => !c.value.same v
  | none => true

/-- Puts a value into a cell; the empty value empties it. -/
def putValue (e : Engine) (p : Position) (v : Value) : Engine :=
  if v.isEmpty then e.emptyCell p
  else
    let changes := if e.differsFrom p v then e.changes.insert p else e.changes
    (({ e.take p with changes }.store p (.constant v)).markDirty [p]).afterEdit

/-- Puts a formula into a cell. -/
def putFormula (e : Engine) (p : Position) (text : String) : Engine :=
  let fresh := Cell.formula text (e.readFormula text)
  let cell := match e.workbook.cell? p with
    | some previous => fresh.storeValue previous.value
    | none => fresh
  ((((e.take p).store p cell).relink p).markDirty [p]).afterEdit

/-- Whether a text is a formula. -/
def isFormulaText (text : String) : Bool :=
  match text.toList with
  | '=' :: _ => true
  | _ => false

/-- Stores a value. -/
def setValue (e : Engine) (sheet : SheetId) (a : Address) (v : Value) : Reply Unit :=
  e.edit (e.locate sheet a) fun p => e.putValue p v

/-- Stores what a text stands for: a formula or a constant. -/
def setFormula (e : Engine) (sheet : SheetId) (a : Address) (text : String) : Reply Unit :=
  e.edit (e.locate sheet a) fun p =>
    if isFormulaText text then e.putFormula p text
    else e.putValue p (Value.ofConstant e.settings.locale text)

/-- Empties a cell. -/
def clearCell (e : Engine) (sheet : SheetId) (a : Address) : Reply Unit :=
  e.edit (e.locate sheet a) e.emptyCell

/-! ### Reading -/

/-- The value last computed for a cell. -/
def getValue (e : Engine) (sheet : SheetId) (a : Address) : Except EngineError Value :=
  (e.locate sheet a).map e.workbook.value

/-- The cell stored at a position. -/
def cell? (e : Engine) (p : Position) : Option Cell := e.workbook.cell? p

/-- The state of a stored cell. -/
def cellState? (e : Engine) (p : Position) : Option CellState := (e.cell? p).map Cell.state

/-- The text of the formula of a cell. -/
def formula? (e : Engine) (p : Position) : Option String := (e.cell? p).bind Cell.formulaText?

/-- The dirty cells, sorted. -/
def dirtyCells (e : Engine) : List Position := e.dirty.toList

/-- Computes a cell, whether or not it is dirty, and answers its value. -/
def evaluateCell (e : Engine) (sheet : SheetId) (a : Address) : Reply Value :=
  e.perform (e.locate sheet a) fun p =>
    let e := (e.recompute (.cell p)).1
    (e, e.workbook.value p)

/-- The value of a formula that is not stored, with or without its `=`, from the values as they
are. -/
def evaluateExpression (e : Engine) (sheet : SheetId) (text : String) : Except EngineError Value :=
  match e.workbook.get sheet with
  | .error problem => .error problem
  | .ok _ =>
    match e.readFormula (if isFormulaText text then text else "=" ++ text) with
    | .error problem => .ok (.error problem)
    | .ok x => .ok (evaluate (e.workbook.context e.names e.settings e.library) sheet x)

/-- The canonical text of a formula. -/
def canonicalFormula (e : Engine) (text : String) : Except ErrorValue String :=
  (canonical e.settings.locale text).mapError ParseError.toError

/-- The cells whose display is out of date, sheet by sheet, and the engine with those displays
built. -/
def buildDisplays (e : Engine) : List Position × Engine :=
  let ps := e.workbook.positions.filter fun p =>
    (e.workbook.cell? p).any fun c => c.flags.displayDirty
  (ps, { e with workbook := ps.foldl (fun w p => w.modifyCell p Cell.buildDisplay) e.workbook })

end Engine

end Spreadsheet
