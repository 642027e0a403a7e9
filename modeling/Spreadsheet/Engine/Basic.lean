import Spreadsheet.Formula.Expr.Parser
import Spreadsheet.Recalculation.Pass

/-!
# The engine

The engine holds a workbook with its named areas and dependency graph, and keeps three sets of
positions: the dirty cells, which the next pass may compute; the loaded formulas whose text has not been
read; and the cells that have changed since the last pass without being computed.

A call on the engine first checks its arguments and then acts, so there is one form for all calls
(`Engine.perform`): a refused call leaves the engine as it was. After an edit the cells that depend on it
are marked dirty; values are brought up to date by a pass, which runs on demand or, if the settings ask
for it, after every edit.
-/

namespace Spreadsheet

open Grid

/-- A workbook that keeps its values up to date. -/
structure Engine where
  settings : Settings := {}
  library : Library := .standard
  workbook : Workbook := {}
  names : NamedAreas := {}
  graph : DependencyGraph := {}
  /-- Cells that have to be computed. -/
  dirty : PositionSet := {}
  /-- Loaded formulas whose text has not been read. -/
  unread : PositionSet := {}
  /-- Cells whose value has changed since the last pass without being computed. -/
  changes : PositionSet := {}
  /-- The reports that a listener has received and not collected, the last one first; `none` when
  nobody listens. -/
  mailbox : Option (List PassReport) := none

/-- What a call leaves behind: the engine after it, and the answer or the reason for a refusal. -/
structure Reply (α : Type) where
  engine : Engine
  result : Except EngineError α

namespace Engine

/-- Checks the arguments of a call and acts if nothing is wrong with them. -/
def perform {α β : Type} (e : Engine) (checked : Except EngineError α) (act : α → Engine × β) :
    Reply β :=
  match checked with
  | .error problem => ⟨e, .error problem⟩
  | .ok x => ⟨(act x).1, .ok (act x).2⟩

/-- A call that answers nothing. -/
def edit {α : Type} (e : Engine) (checked : Except EngineError α) (act : α → Engine) : Reply Unit :=
  e.perform checked fun x => (act x, ())

/-- The position of an address on a sheet; refused when the sheet is gone, and else when the address
lies outside the grid. -/
def locate (e : Engine) (sheet : SheetId) (a : Address) : Except EngineError Position :=
  match e.workbook.get sheet with
  | .error problem => .error problem
  | .ok _ =>
    if a.isWithin e.settings.columns e.settings.rows then .ok (.ofAddress sheet a)
    else .error (.outOfBounds a e.settings.columns e.settings.rows)

/-- Whether a rectangle lies in the grid. -/
def fits (e : Engine) (r : Rect) : Bool := r.isWithin e.settings.columns e.settings.rows

/-- The tree of a formula, or its syntax error as a value. -/
def readFormula (e : Engine) (text : String) : Except ErrorValue Expr :=
  (Expr.parse e.settings.locale text).mapError ParseError.toError

/-! ### Keeping the graph up to date -/

/-- Records what the formula at a position reads, and on the cell whether all of it can be resolved. A
formula that has not been read keeps its edges. -/
def relink (e : Engine) (p : Position) : Engine :=
  match (e.workbook.cell? p).bind Cell.formula? with
  | none => { e with graph := e.graph.clear p }
  | some f =>
    match f.parsed with
    | none => e
    | some (.error _) =>
      { e with
        graph := e.graph.clear p
        workbook := e.workbook.modifyCell p fun c => c.setLinkError none }
    | some (.ok x) =>
      let (graph, problem) := e.graph.rebuild p x (e.workbook.scope e.names e.settings)
      { e with
        graph
        workbook := e.workbook.modifyCell p fun c => c.setLinkError problem }

/-- Relinks several positions. -/
def relinkAll (e : Engine) (ps : List Position) : Engine := ps.foldl relink e

/-- Marks a stored cell as dirty. -/
def markCell (e : Engine) (p : Position) : Engine :=
  match e.workbook.cell? p with
  | some _ =>
    { e with workbook := e.workbook.modifyCell p Cell.markDirty, dirty := e.dirty.insert p }
  | none => e

/-- Marks the stored cells among some positions and all that depend on them. -/
def markDirty (e : Engine) (seeds : List Position) : Engine :=
  (e.graph.closure seeds).toList.foldl markCell e

/-- Takes a cell out of storage, with its edges. -/
def take (e : Engine) (p : Position) : Engine :=
  match e.workbook.cell? p with
  | some _ =>
    { e with
      workbook := e.workbook.eraseCell p
      graph := e.graph.clear p
      unread := e.unread.erase p }
  | none => e

/-- Stores a cell. -/
def store (e : Engine) (p : Position) (c : Cell) : Engine :=
  { e with workbook := e.workbook.insertCell p c }

/-! ### Passes -/

/-- Reads the text of a loaded formula and links it. A constant that has taken its place needs
neither. -/
def readLoaded (e : Engine) (p : Position) : Engine :=
  match e.workbook.cell? p with
  | none => e.relink p
  | some c =>
    match c.formulaText? with
    | none => e
    | some text =>
      { e with
        workbook := e.workbook.modifyCell p fun c => c.read (e.readFormula text) }.relink p

/-- Reads and links all loaded formulas. -/
def readAllLoaded (e : Engine) : Engine :=
  let ps := e.unread.toList
  if ps.isEmpty then e else (ps.foldl readLoaded { e with unread := {} }).markDirty ps

/-- What stays the same during a pass. -/
def surroundings (e : Engine) : Surroundings := ⟨e.names, e.graph, e.settings, e.library⟩

/-- The pass that covers a scope, from an engine that has read all loaded formulas. -/
def pass (e : Engine) (scope : PassScope) : Pass :=
  Pass.run e.surroundings { workbook := e.workbook, dirty := e.dirty, waiting := e.dirty } scope

/-- Brings the values that a scope covers up to date and reports what was done. -/
def recompute (e : Engine) (scope : PassScope) : Engine × PassReport :=
  let e := e.readAllLoaded
  let s := e.pass scope
  let report : PassReport :=
    { computed := s.computed.length
      cycles := s.circular.length
      changed := Region.ofCells (e.changes.toList ++ s.changed) }
  ({ e with
     workbook := s.workbook
     dirty := s.dirty
     changes := {}
     mailbox := e.mailbox.map (report :: ·) }, report)

/-- What follows every edit: a pass over all dirty cells, if the settings ask for it. -/
def afterEdit (e : Engine) : Engine :=
  if e.settings.autoRecalculate then (e.recompute .dirty).1 else e

/-- A recalculation on demand. A single cell has to lie in the grid. -/
def recalculate (e : Engine) (scope : PassScope) : Reply PassReport :=
  let checked : Except EngineError Unit := match scope with
    | .cell p => (e.locate p.sheet p.address).map fun _ => ()
    | _ => .ok ()
  e.perform checked fun _ => e.recompute scope

/-! ### Listening -/

/-- Starts to listen: the report of every pass is put into the mailbox. -/
def listen (e : Engine) : Engine := { e with mailbox := some [] }

/-- Stops listening. -/
def unlisten (e : Engine) : Engine := { e with mailbox := none }

/-- The reports received since the last collection, in order, and the engine with an empty mailbox. -/
def collect (e : Engine) : List PassReport × Engine :=
  ((e.mailbox.getD []).reverse, { e with mailbox := e.mailbox.map fun _ => [] })

@[simp]
theorem perform_error {α β : Type} (e : Engine) (problem : EngineError) (act : α → Engine × β) :
    e.perform (.error problem) act = ⟨e, .error problem⟩ := rfl

@[simp]
theorem perform_ok {α β : Type} (e : Engine) (x : α) (act : α → Engine × β) :
    e.perform (.ok x) act = ⟨(act x).1, .ok (act x).2⟩ := rfl

/-- A call that is refused leaves the engine as it was. -/
theorem perform_engine_of_error {α β : Type} {e : Engine} {checked : Except EngineError α}
    {act : α → Engine × β} {problem : EngineError} (h : (e.perform checked act).result = .error problem) :
    (e.perform checked act).engine = e := by
  cases checked with
  | error _ => rfl
  | ok x => simp at h

end Engine

end Spreadsheet
