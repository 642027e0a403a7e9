import Spreadsheet.Proofs.Edges
import Spreadsheet.Proofs.Storage

/-!
# Recording: a graph after any updates

A graph starts empty and is changed in three ways: a formula is recorded, a formula is forgotten, and
everything is dropped. The scope in which references are resolved may be another one for each formula that
is recorded. This module follows the graph through any sequence of such updates.

What is known of one formula is decided by the last update that concerned it, `lastRecorded`:

* `Update.link_apply` and `isSymmetric_apply` — one update makes one record anew, or empties it, and both
  directions stay in step;
* `link_afterUpdates`, `isSymmetric_afterUpdates` — so after any updates the record of a cell is that of its
  last formula, and everything is found from both ends.

A range and a rectangle are compared by their corners. That is the same as asking for a shared cell, because
no rectangle is empty (`intersects_iff_exists`). The main result is `agrees_afterUpdates`.
-/

namespace Spreadsheet

open Grid

/-- Two rectangles that meet share a cell: none of them is empty. -/
theorem Grid.Rect.intersects_iff_exists (r s : Rect) :
    r.intersects s = true ↔ ∃ col row, r.contains col row = true ∧ s.contains col row = true := by
  constructor
  · intro h
    -- The first cell of both is where the later of the two first lines cross.
    refine ⟨max r.left s.left, max r.top s.top, ?_, ?_⟩ <;>
    · have := r.left_le_right
      have := r.top_le_bottom
      have := s.left_le_right
      have := s.top_le_bottom
      unfold intersects at h
      unfold contains
      simp only [Bool.and_eq_true, decide_eq_true_eq] at h ⊢
      omega
  · rintro ⟨col, row, hr, hs⟩
    exact intersects_of_contains hr hs

namespace DependencyGraph

/-- A change to a graph. -/
inductive Update where
  | record (reader : Position) (x : Expr) (scope : Scope)
  | forget (reader : Position)
  | drop

/-- The graph after a change. -/
def Update.apply (g : DependencyGraph) : Update → DependencyGraph
  | .record reader x scope => (g.rebuild reader x scope).1
  | .forget reader => g.clear reader
  | .drop => {}

/-- The graph that changes make of an empty one. -/
def afterUpdates (updates : List Update) : DependencyGraph := updates.foldl Update.apply {}

/-- The formula that is recorded for a cell after a change, with the scope in which it was resolved. -/
def Update.recorded (p : Position) (before : Option (Expr × Scope)) : Update → Option (Expr × Scope)
  | .record reader x scope => if p = reader then some (x, scope) else before
  | .forget reader => if p = reader then none else before
  | .drop => none

/-- The formula that was last recorded for a cell, if it was not forgotten since. -/
def lastRecorded (updates : List Update) (p : Position) : Option (Expr × Scope) :=
  updates.foldl (Update.recorded p) none

/-- The record that belongs to what was last recorded for a cell. -/
def linkOfLast (p : Position) (last : Option (Expr × Scope)) : Link :=
  last.elim {} fun (x, scope) => linkOf scope p.sheet x

/-! ### One update -/

/-- If the record of a cell is that of its last formula, then it is so after a change. -/
theorem Update.link_apply {g : DependencyGraph} {p : Position} {last : Option (Expr × Scope)}
    (h : g.link p = linkOfLast p last) (u : Update) :
    (u.apply g).link p = linkOfLast p (u.recorded p last) := by
  cases u with
  | record reader x scope =>
    show (g.rebuild reader x scope).1.link p = linkOfLast p (if p = reader then some (x, scope) else last)
    rw [link_rebuild]
    split
    · next hp => rw [hp]; rfl
    · exact h
  | forget reader =>
    show (g.clear reader).link p = linkOfLast p (if p = reader then none else last)
    rw [link_clear]
    split
    · rfl
    · exact h
  | drop => exact link_empty p

theorem IsSymmetric.update {g : DependencyGraph} (hg : g.IsSymmetric) (u : Update) :
    (u.apply g).IsSymmetric := by
  cases u with
  | record reader x scope => exact hg.rebuild reader x scope
  | forget reader => exact hg.clear reader
  | drop => exact isSymmetric_empty

/-! ### Any updates -/

theorem isSymmetric_afterUpdates (updates : List Update) : (afterUpdates updates).IsSymmetric := by
  unfold afterUpdates
  suffices h : ∀ g : DependencyGraph, g.IsSymmetric → (updates.foldl Update.apply g).IsSymmetric from
    h {} isSymmetric_empty
  induction updates with
  | nil => exact fun _ hg => hg
  | cons u updates ih => exact fun g hg => ih (u.apply g) (hg.update u)

/-- **The record of a cell is that of the formula that was last recorded for it.** -/
theorem link_afterUpdates (updates : List Update) (p : Position) :
    (afterUpdates updates).link p = linkOfLast p (lastRecorded updates p) := by
  unfold afterUpdates lastRecorded
  suffices h : ∀ (g : DependencyGraph) (last : Option (Expr × Scope)), g.link p = linkOfLast p last →
      (updates.foldl Update.apply g).link p =
        linkOfLast p (updates.foldl (Update.recorded p) last) from
    h {} none (link_empty p)
  induction updates with
  | nil => exact fun _ _ h => h
  | cons u updates ih => exact fun g last h => ih (u.apply g) (u.recorded p last) (u.link_apply h)

/-- A formula looks up a name: one of its references has the name, in any case. -/
def LooksUp (x : Expr) (name : String) : Prop :=
  ∃ written other, (written, Reference.name other) ∈ x.references ∧ Text.lower other = Text.lower name

theorem mem_lookedUp_lower (x : Expr) (name : String) :
    Text.lower name ∈ lookedUp x ↔ LooksUp x name := by
  rw [mem_lookedUp]
  unfold namesOf LooksUp
  simp only [List.mem_filterMap]
  constructor
  · rintro ⟨other, ⟨⟨written, r⟩, hmem, hr⟩, hlower⟩
    cases r with
    | name n =>
      cases hr
      exact ⟨written, other, hmem, hlower.symm⟩
    | cell | range => cases hr
  · rintro ⟨written, other, hmem, hlower⟩
    exact ⟨other, ⟨(written, .name other), hmem, rfl⟩, hlower.symm⟩

/-- The readers of a name are the cells whose last formula looks it up. -/
theorem mem_readersOfName_afterUpdates (updates : List Update) (name : String) (reader : Position) :
    reader ∈ (afterUpdates updates).readersOfName name ↔
      ∃ x scope, lastRecorded updates reader = some (x, scope) ∧ LooksUp x name := by
  rw [mem_readersOfName (isSymmetric_afterUpdates updates)]
  have hnames : (afterUpdates updates).namesReadBy reader =
      (linkOfLast reader (lastRecorded updates reader)).names :=
    congrArg Link.names (link_afterUpdates updates reader)
  rw [hnames]
  cases lastRecorded updates reader with
  | none => simp [linkOfLast]
  | some last =>
    obtain ⟨x, scope⟩ := last
    show Text.lower name ∈ lookedUp x ↔ _
    rw [mem_lookedUp_lower]
    constructor
    · exact fun h => ⟨x, scope, rfl, h⟩
    · rintro ⟨_, _, hlast, h⟩
      cases hlast
      exact h

/-- In a graph that agrees from both ends, the readers of a rectangle are the readers of its cells. -/
theorem mem_readersOfRect_iff_exists {g : DependencyGraph} (hg : g.IsSymmetric) {sheet : SheetId}
    {rect : Rect} {reader : Position} :
    reader ∈ g.readersOfRect sheet rect ↔
      ∃ col row, rect.contains col row = true ∧ reader ∈ g.readersOf ⟨sheet, row, col⟩ := by
  simp only [mem_readersOfRect hg, mem_readersOf hg, Reads, Area.covers_iff,
    Grid.Rect.intersects_iff_exists]
  constructor
  · rintro ⟨a, ha, hsheet, col, row, hin, hrect⟩
    exact ⟨col, row, hrect, a, ha, hsheet, hin⟩
  · rintro ⟨col, row, hrect, a, ha, hsheet, hin⟩
    exact ⟨a, ha, hsheet, col, row, hin, hrect⟩

/-- What is left of a formula with a reference that means nothing: it is found under its names and nowhere
else. -/
structure IsDangling (g : DependencyGraph) (p : Position) (x : Expr) : Prop where
  precedents : g.precedentsOf p = []
  unresolved : p ∈ g.unresolved
  cells : ∀ q, p ∉ g.readersOf q
  rects : ∀ sheet rect, p ∉ g.readersOfRect sheet rect
  sheets : ∀ sheet, p ∉ g.readersOfSheet sheet
  names : ∀ name, p ∈ g.readersOfName name ↔ LooksUp x name

/-- A formula that cannot be resolved is left dangling. -/
theorem isDangling_rebuild {g : DependencyGraph} (hg : g.IsSymmetric) {p : Position} {x : Expr}
    {scope : Scope} {problem : ErrorValue} (h : (g.rebuild p x scope).2 = some problem) :
    (g.rebuild p x scope).1.IsDangling p x := by
  have hlink : (g.rebuild p x scope).1.link p = ⟨[], lookedUp x, true⟩ := by
    rw [link_rebuild, if_pos rfl]
    rw [snd_rebuild] at h
    unfold linkOf
    cases hr : resolveAll scope p.sheet x.references with
    | error e => rfl
    | ok areas =>
      rw [hr] at h
      cases h
  have hsymmetric := hg.rebuild p x scope
  have hareas : (g.rebuild p x scope).1.precedentsOf p = [] := congrArg Link.areas hlink
  have hnames : (g.rebuild p x scope).1.namesReadBy p = lookedUp x := congrArg Link.names hlink
  have hunresolved : (g.rebuild p x scope).1.unresolved.contains p = true :=
    congrArg Link.unresolved hlink
  constructor
  case precedents => exact hareas
  case unresolved => exact hunresolved
  case cells =>
    intro q
    rw [mem_readersOf hsymmetric, Reads, hareas]
    simp
  case rects =>
    intro sheet rect
    rw [mem_readersOfRect hsymmetric, hareas]
    simp
  case sheets =>
    intro sheet
    rw [mem_readersOfSheet hsymmetric, hareas]
    simp
  case names =>
    intro name
    rw [mem_readersOfName hsymmetric, hnames, mem_lookedUp_lower]

/-- Everything that a graph says of its edges is said in the same way from both ends, where `last` is the
formula that was last recorded for each cell. -/
structure AgreesFromBothEnds (g : DependencyGraph) (last : Position → Option (Expr × Scope)) : Prop where
  /-- The readers of a cell are the cells with an area that has it. -/
  cells : ∀ reader p, reader ∈ g.readersOf p ↔ ∃ a ∈ g.precedentsOf reader, a.covers p = true
  /-- The readers of a rectangle are those of its cells. -/
  rects : ∀ reader sheet rect, reader ∈ g.readersOfRect sheet rect ↔
    ∃ col row, rect.contains col row = true ∧ reader ∈ g.readersOf ⟨sheet, row, col⟩
  /-- The readers of a sheet are the cells with an area on it. -/
  sheets : ∀ reader sheet, reader ∈ g.readersOfSheet sheet ↔ ∃ a ∈ g.precedentsOf reader, a.sheet = sheet
  /-- The readers of a name are the cells whose last formula looks it up. -/
  names : ∀ reader name, reader ∈ g.readersOfName name ↔
    ∃ x scope, last reader = some (x, scope) ∧ LooksUp x name
  /-- What is recorded and cannot be resolved has no edges and keeps its names. -/
  failures : ∀ p x scope problem, (g.rebuild p x scope).2 = some problem →
    (g.rebuild p x scope).1.IsDangling p x

/-- **After any updates a graph agrees from both ends.** -/
theorem agrees_afterUpdates (updates : List Update) :
    (afterUpdates updates).AgreesFromBothEnds (lastRecorded updates) where
  cells _ _ := mem_readersOf (isSymmetric_afterUpdates updates)
  rects _ _ _ := mem_readersOfRect_iff_exists (isSymmetric_afterUpdates updates)
  sheets _ _ := mem_readersOfSheet (isSymmetric_afterUpdates updates)
  names reader name := mem_readersOfName_afterUpdates updates name reader
  failures _ _ _ _ := isDangling_rebuild (isSymmetric_afterUpdates updates)

/-- A formula that is recorded again without its name is found under its cell and no longer under the name. -/
example :
    let reader : Position := ⟨⟨0, 0⟩, 0, 0⟩
    let scope : Scope := ⟨fun _ => none, fun _ => none, 10, 10⟩
    let g := afterUpdates [.record reader (.reference none "Rate" (.name "Rate")) scope,
      .record reader (.reference none "C2" (.cell none (.plain 2 1))) scope]
    (g.readersOf ⟨⟨0, 0⟩, 1, 2⟩).toList = [reader] ∧ (g.readersOfName "RATE").toList = [] := by
  decide +kernel

end DependencyGraph

end Spreadsheet
