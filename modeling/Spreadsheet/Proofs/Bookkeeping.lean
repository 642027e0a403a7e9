import Spreadsheet.Proofs.Histories

/-!
# Bookkeeping: the two copies of what is dirty

That a cell has to be computed is kept twice, by its position in a set and by a mark on the cell. Every
call changes both, and edits of lines move both.

* `Engine.IsCoherent` — set and marks agree, no cell is under evaluation, the error marks are right, and
  the dirty cells are closed under readers, but for formulas that have not been read;
* `Reachable.isCoherent` — every reachable engine is coherent, on a grid with room;
* `not_isCoherent_collision` — without room it need not be: an insertion before the last line that can be
  counted brings a clean cell to the position of a dirty one.

What does not concern the marks holds on every grid (`Reachable.isCoherent_iff`).
-/

namespace Spreadsheet

open Grid DependencyGraph

namespace Engine

/-- The two copies of what is dirty agree, and the dirty cells are closed under readers. -/
structure IsCoherent (e : Engine) : Prop where
  /-- A position is dirty exactly if a cell is stored there that carries the mark. -/
  marked : ∀ p, p ∈ e.dirty ↔ ∃ c, e.workbook.cell? p = some c ∧ c.flags.dirty = true
  /-- No cell is under evaluation. -/
  idle : ∀ p c, e.workbook.cell? p = some c → c.flags.evaluating = false
  /-- The error mark says whether the stored value is an error. -/
  error : ∀ p c, e.workbook.cell? p = some c → (c.flags.error = true ↔ c.value.isError = true)
  /-- A formula that has not been read is dirty. -/
  unread : ∀ p ∈ e.unread, p ∈ e.dirty
  /-- The readers of a dirty cell are dirty, unless its formula has not been read. -/
  closed : ∀ p ∈ e.dirty, p ∉ e.unread → ∀ reader ∈ e.graph.readersOf p, reader ∈ e.dirty

variable {library : Library} {e : Engine}

/-- **In every reachable engine all is coherent as soon as the cells at the dirty positions carry the
mark.** -/
theorem Reachable.isCoherent_iff (h : Reachable library e) :
    e.IsCoherent ↔ ∀ p c, e.workbook.cell? p = some c → p ∈ e.dirty → c.flags.dirty = true := by
  have hconsistent := h.consistent
  constructor
  · intro hcoherent p c hc hp
    obtain ⟨c', hc', hmark⟩ := (hcoherent.marked p).mp hp
    rw [hc] at hc'
    cases hc'
    exact hmark
  intro hmarks
  constructor
  case marked =>
    intro p
    constructor
    · intro hp
      obtain ⟨c, hc⟩ := Option.isSome_iff_exists.mp (hconsistent.stored p hp)
      exact ⟨c, hc, hmarks p c hc hp⟩
    · rintro ⟨c, hc, hmark⟩
      exact hconsistent.flagged p c hc hmark
  case idle => exact fun p c hc => (hconsistent.cells p c hc).idle
  case error =>
    intro p c hc
    have hagrees : c.flags.error = c.value.isError := (hconsistent.cells p c hc).error
    rw [hagrees]
  case unread => exact hconsistent.unread
  case closed =>
    intro p hp hread reader hreader
    exact hconsistent.closed p hp hread reader ((mem_readersOf hconsistent.symmetric).mp hreader)

/-- **Every reachable engine is coherent**, on a grid with room. -/
theorem Reachable.isCoherent (h : Reachable library e) (hroomy : e.settings.IsRoomy) : e.IsCoherent :=
  h.isCoherent_iff.mpr (h.consistent.marked hroomy)

/-- Calls that leave loaded formulas among edited ones, and move both. -/
def loadedAmongEdited : List Call :=
  [.addSheet "S", .loadCell firstSheet (.plain 1 1) ⟨"=B1", .boolean true⟩,
    .setFormula firstSheet (.plain 3 1) "=A1", .recalculate .dirty,
    .loadCell firstSheet (.plain 1 2) ⟨"=A1&C1", .empty⟩, .setValue firstSheet (.plain 2 1) (.boolean false),
    .editLines firstSheet ⟨.columns, .insertion, 2, 1⟩]

theorem isCoherent_loadedAmongEdited :
    Reachable .standard ((start {} .standard).run loadedAmongEdited) ∧
      ((start {} .standard).run loadedAmongEdited).settings.IsRoomy ∧
      ((start {} .standard).run loadedAmongEdited).IsCoherent := by
  have hreachable : Reachable .standard ((start {} .standard).run loadedAmongEdited) :=
    (Reachable.start {} ⟨by decide, by decide⟩).run loadedAmongEdited
  have hroomy : ((start {} .standard).run loadedAmongEdited).settings.IsRoomy := by
    constructor <;> decide +kernel
  exact ⟨hreachable, hroomy, Reachable.isCoherent hreachable hroomy⟩

/-! ### Grids without room -/

/-- A grid with as many lines along an axis as can be counted. -/
def fullGrid : Axis → Settings
  | .rows => { rows := lastLine }
  | .columns => { columns := lastLine }

/-- The first address on a line. -/
def firstOn : Axis → Nat → Address
  | .rows, line => .plain 1 line
  | .columns, line => .plain line 1

/-- Calls that leave a cell on the last line that can be counted clean, make one before it dirty, and
insert a line before both. -/
def collision (axis : Axis) : List Call :=
  [.addSheet "S", .setValue firstSheet (firstOn axis lastLine) (.boolean true), .recalculate .dirty,
    .setValue firstSheet (firstOn axis (lastLine - 1)) (.boolean false),
    .editLines firstSheet ⟨axis, .insertion, 1, 1⟩]

theorem collision_spec (axis : Axis) :
    Position.ofAddress firstSheet (firstOn axis lastLine) ∈
        ((start (fullGrid axis) .standard).run (collision axis)).dirty ∧
      (((start (fullGrid axis) .standard).run (collision axis)).workbook.cell?
        (.ofAddress firstSheet (firstOn axis lastLine))).all (fun c => !c.flags.dirty) = true := by
  cases axis <;> decide +kernel

/-- **Without room on the grid an engine need not be coherent**, whichever axis has none. Both cells end
up on the last line: the position of the dirty one is dirty, and the clean one is stored there. -/
theorem not_isCoherent_collision :
    ¬((start (fullGrid .rows) .standard).run (collision .rows)).IsCoherent ∧
      ¬((start (fullGrid .columns) .standard).run (collision .columns)).IsCoherent := by
  have hboth : ∀ axis, ¬((start (fullGrid axis) .standard).run (collision axis)).IsCoherent := by
    intro axis h
    obtain ⟨hdirty, hclean⟩ := collision_spec axis
    obtain ⟨c, hc, hmark⟩ := (h.marked _).mp hdirty
    rw [hc, Option.all_some, hmark] at hclean
    cases hclean
  exact ⟨hboth .rows, hboth .columns⟩

end Engine

end Spreadsheet
