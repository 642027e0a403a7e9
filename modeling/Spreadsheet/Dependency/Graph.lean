import Spreadsheet.Evaluation.Resolution
import Spreadsheet.Formula.Expr.Basic

/-!
# The dependency graph

For every cell with a formula the graph records the areas that the formula reads. The same edges are
kept a second time in the other direction, so that the readers of a cell are found without a search:
single cells have a set of readers each, and each sheet has a list of the ranges that are read on it.
A range is one edge, however large it is, and its readers are found by geometry.

Formulas that look up names are recorded by name, whether or not they could be resolved, and a formula
with a reference that could not be resolved has no edges and is remembered as unresolved.
-/

namespace Spreadsheet

open Grid

/-- What is read by which cell, in both directions. -/
structure DependencyGraph where
  /-- The areas that the formula of a cell reads. -/
  reads : Std.TreeMap Position (List Area) := {}
  /-- The cells whose formula reads a cell by itself. -/
  pointReaders : Std.TreeMap Position PositionSet := {}
  /-- The ranges that are read on a sheet, each with the cell whose formula reads it. -/
  rangeReaders : Std.TreeMap SheetId (List (Rect × Position)) := {}
  /-- The cells whose formula looks up a name, given in lower case. -/
  nameReaders : Std.TreeMap String PositionSet := {}
  /-- The names that the formula of a cell looks up, in lower case. -/
  namesRead : Std.TreeMap Position (List String) := {}
  /-- The cells whose formula has a reference that could not be resolved. -/
  unresolved : PositionSet := {}

namespace DependencyGraph

/-! ### Sets and lists under a key -/

/-- Adds a position to the set under a key. -/
def addReader {κ : Type} [Ord κ] (m : Std.TreeMap κ PositionSet) (key : κ) (reader : Position) :
    Std.TreeMap κ PositionSet :=
  m.alter key fun readers => some ((readers.getD {}).insert reader)

/-- Takes a position out of the set under a key; an empty set is not kept. -/
def removeReader {κ : Type} [Ord κ] (m : Std.TreeMap κ PositionSet) (key : κ) (reader : Position) :
    Std.TreeMap κ PositionSet :=
  m.alter key fun readers =>
    match readers with
    | some s => if (s.erase reader).isEmpty then none else some (s.erase reader)
    | none => none

/-- The positions under a key. -/
def readersUnder {κ : Type} [Ord κ] (m : Std.TreeMap κ PositionSet) (key : κ) : PositionSet :=
  (m.get? key).getD {}

/-! ### Edges -/

/-- Records that the formula of a cell reads an area. -/
def addEdge (g : DependencyGraph) (reader : Position) : Area → DependencyGraph
  | .point p => { g with pointReaders := addReader g.pointReaders p reader }
  | .range sheet rect =>
    { g with
      rangeReaders := g.rangeReaders.alter sheet fun edges =>
        some (edges.getD [] ++ [(rect, reader)]) }

/-- Forgets that the formula of a cell reads an area. -/
def removeEdge (g : DependencyGraph) (reader : Position) : Area → DependencyGraph
  | .point p => { g with pointReaders := removeReader g.pointReaders p reader }
  | .range sheet rect =>
    { g with
      rangeReaders := g.rangeReaders.alter sheet fun edges =>
        match (edges.getD []).filter (fun edge => !(edge.2 == reader && edge.1 == rect)) with
        | [] => none
        | kept => some kept }

/-- Records that the formula of a cell looks up a name. -/
def addName (g : DependencyGraph) (reader : Position) (name : String) : DependencyGraph :=
  let key := Text.lower name
  { g with
    nameReaders := addReader g.nameReaders key reader
    namesRead := g.namesRead.alter reader fun names =>
      let names := names.getD []
      some (if key ∈ names then names else names ++ [key]) }

/-- Forgets everything that the formula of a cell reads. -/
def clear (g : DependencyGraph) (reader : Position) : DependencyGraph :=
  let areas := (g.reads.get? reader).getD []
  let names := (g.namesRead.get? reader).getD []
  let g := areas.foldl (fun g area => g.removeEdge reader area) g
  { g with
    reads := g.reads.erase reader
    nameReaders := names.foldl (fun m name => removeReader m name reader) g.nameReaders
    namesRead := g.namesRead.erase reader
    unresolved := g.unresolved.erase reader }

/-- The areas that references mean, each once, in the order of the references; or the error of the
first reference that means none. -/
def resolveAll (scope : Scope) (sheet : SheetId) (references : List (String × Reference)) :
    Except ErrorValue (List Area) :=
  references.foldl
    (fun found (written, r) =>
      match found with
      | .error e => .error e
      | .ok areas =>
        match scope.resolve r sheet with
        | .ok area => .ok (if area ∈ areas then areas else areas ++ [area])
        | .error problem => .error (problem.toError written))
    (.ok [])

/-- The names among references. -/
def namesOf (references : List (String × Reference)) : List String :=
  references.filterMap fun (_, r) =>
    match r with
    | .name n => some n
    | _ => none

/-- Records what the formula of a cell reads, in place of what it read before. If a reference cannot
be resolved, the cell reads nothing, is remembered as unresolved, and the error is returned; the names
that are looked up are recorded either way. -/
def rebuild (g : DependencyGraph) (reader : Position) (x : Expr) (scope : Scope) :
    DependencyGraph × Option ErrorValue :=
  let g := (namesOf x.references).foldl (fun g name => g.addName reader name) (g.clear reader)
  match resolveAll scope reader.sheet x.references with
  | .error e => ({ g with unresolved := g.unresolved.insert reader }, some e)
  | .ok areas =>
    let g := areas.foldl (fun g area => g.addEdge reader area) g
    (if areas.isEmpty then g else { g with reads := g.reads.insert reader areas }, none)

/-! ### Questions -/

/-- The areas that the formula of a cell reads. -/
def precedentsOf (g : DependencyGraph) (reader : Position) : List Area :=
  (g.reads.get? reader).getD []

/-- The ranges that are read on a sheet, with their readers. -/
def rangesOn (g : DependencyGraph) (sheet : SheetId) : List (Rect × Position) :=
  (g.rangeReaders.get? sheet).getD []

/-- The cells whose formula reads a cell, by itself or in a range. -/
def readersOf (g : DependencyGraph) (p : Position) : PositionSet :=
  (g.rangesOn p.sheet).foldl
    (fun readers (rect, reader) => if rect.contains p.col p.row then readers.insert reader else readers)
    (readersUnder g.pointReaders p)

/-- The cells that read any point that satisfies a test. -/
def readersOfPoints (g : DependencyGraph) (test : Position → Bool) : PositionSet :=
  g.pointReaders.foldl
    (fun found p readers => if test p then readers.foldl (fun s r => s.insert r) found else found) {}

/-- The cells whose formula reads any cell of a rectangle. -/
def readersOfRect (g : DependencyGraph) (sheet : SheetId) (rect : Rect) : PositionSet :=
  (g.rangesOn sheet).foldl
    (fun readers (r, reader) => if r.intersects rect then readers.insert reader else readers)
    (g.readersOfPoints fun p => p.sheet == sheet && rect.contains p.col p.row)

/-- The cells whose formula reads any cell of a sheet. -/
def readersOfSheet (g : DependencyGraph) (sheet : SheetId) : PositionSet :=
  (g.rangesOn sheet).foldl (fun readers (_, reader) => readers.insert reader)
    (g.readersOfPoints fun p => p.sheet == sheet)

/-- The cells whose formula looks up a name. -/
def readersOfName (g : DependencyGraph) (name : String) : PositionSet :=
  readersUnder g.nameReaders (Text.lower name)

/-- Every cell whose formula reads anything. -/
def allReaders (g : DependencyGraph) : PositionSet :=
  g.rangeReaders.foldl
    (fun readers _ edges => edges.foldl (fun s (_, reader) => s.insert reader) readers)
    (g.readersOfPoints fun _ => true)

/-- Every cell that is read by itself. -/
def pointsRead (g : DependencyGraph) : List Position :=
  g.reads.values.flatMap fun areas => areas.filterMap fun area =>
    match area with
    | .point p => some p
    | .range _ _ => none

/-- The number of areas that are read, counted once for each reader. -/
def edgeCount (g : DependencyGraph) : Nat :=
  g.reads.values.foldl (fun n areas => n + areas.length) 0

end DependencyGraph

end Spreadsheet
