import Spreadsheet.Formula.Expr.Parser

/-!
# Cells

A cell holds a constant or a formula, the last value computed for it, and five marks. The value and the
marks go through a small life cycle: an edit marks the cell dirty, a recalculation takes it up, and
finishing stores a value and leaves the cell clean. The error mark always says whether the stored value
is an error (`Cell.ErrorMarkAgrees`), and every operation keeps that so.
-/

namespace Spreadsheet

/-- A formula as a cell keeps it. -/
structure Formula where
  text : String
  /-- The tree or the syntax error; nothing while the text has not been read yet. -/
  parsed : Option (Except ErrorValue Expr)
  /-- Why the references of a formula could not be resolved. -/
  linkError : Option ErrorValue

namespace Formula

/-- The tree of a formula that was read without fault. -/
def tree? (f : Formula) : Option Expr :=
  match f.parsed with
  | some (.ok x) => some x
  | _ => none

/-- Whether the text has been read. -/
def isParsed (f : Formula) : Bool := f.parsed.isSome

/-- The error that is the value of the formula without any evaluation: a syntax error, or references
that could not be resolved. -/
def staticError? (f : Formula) : Option ErrorValue :=
  match f.parsed with
  | some (.error e) => some e
  | _ => f.linkError

end Formula

/-- What is stored in a cell. -/
inductive CellContent where
  | constant (v : Value)
  | formula (f : Formula)

/-- The marks of a cell. -/
structure CellFlags where
  /-- The display has to be built again. -/
  displayDirty : Bool := false
  /-- The value has to be computed again. -/
  dirty : Bool := false
  /-- A recalculation has taken the cell up and not finished it. -/
  evaluating : Bool := false
  /-- The value is an error. -/
  error : Bool := false
  /-- The formula was loaded and its text not read yet. -/
  unread : Bool := false
  deriving DecidableEq, Repr

/-- The marks as a number, one binary digit each. -/
def CellFlags.code (f : CellFlags) : Nat :=
  (if f.displayDirty then 1 else 0) + (if f.dirty then 2 else 0) +
    (if f.evaluating then 4 else 0) + (if f.error then 8 else 0) + (if f.unread then 16 else 0)

/-- How far the value of a cell has come. -/
inductive CellState where
  | clean
  | dirty
  | evaluating
  /-- Clean, with an error for its value. -/
  | error
  deriving DecidableEq, Repr

/-- The name of a state. -/
def CellState.name : CellState → String
  | .clean => "Clean"
  | .dirty => "CalcDirty"
  | .evaluating => "Evaluating"
  | .error => "Error"

/-- A cell of a sheet. -/
structure Cell where
  content : CellContent
  value : Value
  flags : CellFlags

namespace Cell

/-- Stores a value and sets the error mark accordingly. -/
def storeValue (c : Cell) (v : Value) : Cell :=
  { c with value := v, flags := { c.flags with error := v.isError } }

/-- A new cell with a constant, to be taken up by the next recalculation. -/
def constant (v : Value) : Cell :=
  storeValue ⟨.constant v, .empty, { displayDirty := true, dirty := true }⟩ v

/-- A new cell with a formula, which has no value yet. -/
def formula (text : String) (parsed : Except ErrorValue Expr) : Cell :=
  ⟨.formula ⟨text, some parsed, none⟩, .empty, { displayDirty := true, dirty := true }⟩

/-- A loaded formula, whose text is read by the next recalculation, with the value it was saved with. -/
def loaded (text : String) (cached : Value) : Cell :=
  storeValue ⟨.formula ⟨text, none, none⟩, .empty,
    { displayDirty := true, dirty := true, unread := true }⟩ cached

/-- The formula of a cell that has one. -/
def formula? (c : Cell) : Option Formula :=
  match c.content with
  | .formula f => some f
  | .constant _ => none

/-- Whether a cell has a formula. -/
def isFormula (c : Cell) : Bool := c.formula?.isSome

/-- The text of the formula of a cell. -/
def formulaText? (c : Cell) : Option String := c.formula?.map Formula.text

/-- The state of a cell. -/
def state (c : Cell) : CellState :=
  if c.flags.evaluating then .evaluating
  else if c.flags.dirty then .dirty
  else if c.flags.error then .error
  else .clean

/-- Applies a change to the formula of a cell; a constant has none. -/
def modifyFormula (c : Cell) (change : Formula → Formula) : Cell :=
  match c.content with
  | .formula f => { c with content := .formula (change f) }
  | .constant _ => c

/-- Marks the value as out of date. -/
def markDirty (c : Cell) : Cell := { c with flags := { c.flags with dirty := true } }

/-- Takes a cell up for evaluation. -/
def begin (c : Cell) : Cell := { c with flags := { c.flags with evaluating := true } }

/-- Stores a computed value and leaves the cell clean; a value that differs from the one before makes
the display out of date. -/
def finish (c : Cell) (v : Value) : Cell :=
  let flags := { c.flags with evaluating := false, dirty := false }
  let flags := if c.value.same v then flags else { flags with displayDirty := true }
  storeValue { c with flags } v

/-- Whether finishing with a value would change what the cell shows. -/
def wouldChange (c : Cell) (v : Value) : Bool := !c.value.same v

/-- Records that the display has been built. -/
def buildDisplay (c : Cell) : Cell := { c with flags := { c.flags with displayDirty := false } }

/-- Replaces the text of a formula and keeps its value. A constant stays as it is. -/
def replaceFormula (c : Cell) (text : String) (parsed : Except ErrorValue Expr) : Cell :=
  match c.content with
  | .formula _ =>
    { c with
      content := .formula ⟨text, some parsed, none⟩
      flags := { c.flags with unread := false } }
  | .constant _ => c

/-- Records what the text of a loaded formula was read as. -/
def read (c : Cell) (parsed : Except ErrorValue Expr) : Cell :=
  let c := c.modifyFormula fun f => { f with parsed := some parsed }
  { c with flags := { c.flags with unread := false } }

/-- Records whether the references of a formula could be resolved. -/
def setLinkError (c : Cell) (e : Option ErrorValue) : Cell :=
  c.modifyFormula fun f => { f with linkError := e }

/-- The error mark says whether the value is an error. -/
def ErrorMarkAgrees (c : Cell) : Prop := c.flags.error = c.value.isError

theorem errorMarkAgrees_storeValue (c : Cell) (v : Value) : (c.storeValue v).ErrorMarkAgrees := rfl

theorem errorMarkAgrees_finish (c : Cell) (v : Value) : (c.finish v).ErrorMarkAgrees := rfl

theorem errorMarkAgrees_constant (v : Value) : (constant v).ErrorMarkAgrees := rfl

theorem errorMarkAgrees_formula (text : String) (parsed : Except ErrorValue Expr) :
    (formula text parsed).ErrorMarkAgrees := rfl

theorem errorMarkAgrees_loaded (text : String) (v : Value) : (loaded text v).ErrorMarkAgrees := rfl

theorem ErrorMarkAgrees.markDirty {c : Cell} (h : c.ErrorMarkAgrees) : c.markDirty.ErrorMarkAgrees := h

theorem ErrorMarkAgrees.begin {c : Cell} (h : c.ErrorMarkAgrees) : c.begin.ErrorMarkAgrees := h

@[simp]
theorem value_finish (c : Cell) (v : Value) : (c.finish v).value = v := rfl

@[simp]
theorem value_markDirty (c : Cell) : c.markDirty.value = c.value := rfl

@[simp]
theorem value_begin (c : Cell) : c.begin.value = c.value := rfl

@[simp]
theorem content_begin (c : Cell) : c.begin.content = c.content := rfl

@[simp]
theorem content_finish (c : Cell) (v : Value) : (c.finish v).content = c.content := by
  unfold finish
  dsimp only
  split <;> rfl

end Cell

end Spreadsheet
