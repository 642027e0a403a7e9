import Spreadsheet.Proofs.Bookkeeping

/-!
# Up to date: incremental recalculation is correct

An engine recomputes only what it knows to be affected by an edit. After a recalculation of all dirty
cells the values are nevertheless those that the formulas have on the workbook as it is now:

* `Engine.IsUpToDate` — no cell is dirty, constants show what they are, and every formula that was read
  shows its error if it has one without evaluation, is a circular error on a cycle, or shows what it
  evaluates to against the values, merged regions, names and sheets of that moment;
* `isUpToDate_run` — this holds after any calls that make no pass over a single cell, followed by a
  recalculation, on a grid with room and for all functions;
* `not_isUpToDate_heldMerge` — without room it need not hold: an insertion before the last line that can
  be counted brings merged regions together, and deleting one shows what the other hides.
-/

namespace Spreadsheet

open Grid DependencyGraph

namespace Engine

/-- Every value is what it should be. Errors count by their kind. -/
structure IsUpToDate (e : Engine) : Prop where
  /-- No position is dirty, and no cell carries the mark. -/
  clean : (∀ p, p ∉ e.dirty) ∧ ∀ p c, e.workbook.cell? p = some c → c.flags.dirty = false
  /-- A constant shows what it is. -/
  constant : ∀ p c v, e.workbook.cell? p = some c → c.content = .constant v → c.value = v
  /-- A formula with a syntax error shows an error of that kind. -/
  malformed : ∀ p c f problem, e.workbook.cell? p = some c → c.content = .formula f →
    f.parsed = some (.error problem) → c.value.IsErrorOf problem.kind
  /-- So does a formula with a link error. -/
  unlinked : ∀ p c f x problem, e.workbook.cell? p = some c → c.content = .formula f →
    f.parsed = some (.ok x) → f.linkError = some problem → c.value.IsErrorOf problem.kind
  /-- Every other formula that was read is a circular error on a cycle, or shows what it evaluates to. -/
  evaluated : ∀ p c f x, e.workbook.cell? p = some c → c.content = .formula f →
    f.parsed = some (.ok x) → f.linkError = none →
      (c.value.IsErrorOf .circular ∧ e.graph.OnCycle p) ∨ c.value.Agrees (evaluate e.context p.sheet x)

variable {e : Engine}

/-- **An engine without dirty cells in which everything is settled is up to date.** -/
theorem isUpToDate_of_settled (h : e.Consistent) (hclean : ∀ p, p ∉ e.dirty) (hsettled : e.Settled) :
    e.IsUpToDate := by
  have hall : ∀ p, e.IsSettled p := fun p => hsettled p (not_stale_of_clean hclean p)
  constructor
  case clean =>
    refine ⟨hclean, fun p c hc => ?_⟩
    cases hmark : c.flags.dirty with
    | false => rfl
    | true => exact absurd (h.flagged p c hc hmark) (hclean p)
  case constant => exact fun p c v hc hv => (h.cells p c hc).constant v hv
  case malformed =>
    intro p c f problem hc hf hparsed
    rw [← Workbook.value_of_cell hc]
    apply (hall p).static
    rw [Workbook.staticKind?_of_cell hc hf]
    unfold Formula.staticError?
    rw [hparsed]
    rfl
  case unlinked =>
    intro p c f x problem hc hf hparsed hlink
    rw [← Workbook.value_of_cell hc]
    apply (hall p).static
    rw [Workbook.staticKind?_of_cell hc hf]
    unfold Formula.staticError?
    rw [hparsed]
    dsimp only
    rw [hlink]
    rfl
  case evaluated =>
    intro p c f x hc hf hparsed hlink
    rw [← Workbook.value_of_cell hc]
    apply (hall p).evaluated x
    · rw [Workbook.staticKind?_of_cell hc hf]
      unfold Formula.staticError?
      rw [hparsed]
      dsimp only
      rw [hlink]
      rfl
    · exact Workbook.tree?_of_cell hc hf hparsed

/-- **Incremental recalculation is correct.** After calls none of which makes a pass over a single cell,
a recalculation of all dirty cells leaves an engine that is up to date, on a grid with room. -/
theorem isUpToDate_run {settings : Settings} (hroomy : settings.IsRoomy) (library : Library)
    {cs : List Call} (hcs : ∀ c ∈ cs, c.IsWhole) :
    (((start settings library).run cs).after (.recalculate .dirty)).IsUpToDate := by
  have hfollows := follows_run (consistent_start settings library) hroomy.isCountable hcs
  have hscope : ∀ p, PassScope.dirty ≠ .cell p := by simp
  have hlast := follows_recompute hfollows.consistent hscope
  refine isUpToDate_of_settled hlast.consistent ?_ ?_
  · exact clean_recompute hfollows.consistent hscope
  · refine hlast.settled ?_ (settled_run hroomy library hcs)
    rw [hfollows.settings_eq]
    exact hroomy

/-- Calls on a grid of the default size: a formula over a cell that is hidden afterwards, one over a sheet
that comes later, and a cycle. -/
def workedExample : List Call :=
  [.addSheet "S", .setValue firstSheet (.plain 1 1) (.boolean true),
    .setFormula firstSheet (.plain 2 1) "=A2&T!A1", .setFormula firstSheet (.plain 3 1) "=C1",
    .mergeCells firstSheet (.span 1 1 1 2), .addSheet "T",
    .editLines firstSheet ⟨.columns, .insertion, 2, 1⟩]

theorem isUpToDate_workedExample :
    Settings.IsRoomy {} ∧ (∀ c ∈ workedExample, c.IsWhole) ∧
      (((start {} .standard).run workedExample).after (.recalculate .dirty)).IsUpToDate := by
  have hroomy : Settings.IsRoomy {} := ⟨by decide, by decide⟩
  have hwhole : ∀ c ∈ workedExample, c.IsWhole := by simp [workedExample, Call.IsWhole]
  exact ⟨hroomy, hwhole, isUpToDate_run hroomy .standard hwhole⟩

/-! ### Grids without room -/

/-- Calls on a grid without room below. An insertion holds the last row where it is, so two merged
regions come to share a cell: it starts the one that comes first on the sheet, and is hidden by the
other. Then the first one is deleted. -/
def heldMerge : List Call :=
  [.addSheet "S", .mergeCells firstSheet (.span 2 (lastLine - 1) 3 (lastLine - 1)),
    .mergeCells firstSheet (.span 1 lastLine 2 lastLine),
    .editLines firstSheet ⟨.rows, .insertion, lastLine - 1, 1⟩,
    .setValue firstSheet (.plain 2 lastLine) (.boolean true),
    .setFormula firstSheet (.plain 4 1) "=B4294967295", .recalculate .dirty,
    .editLines firstSheet ⟨.columns, .deletion, 3, 1⟩]

/-- **Without room on the grid an engine need not be up to date.** The formula is not computed again,
although the cell that it reads is hidden now. -/
theorem not_isUpToDate_heldMerge :
    ¬(((start (fullGrid .rows) .standard).run heldMerge).after (.recalculate .dirty)).IsUpToDate := by
  intro h
  let e := ((start (fullGrid .rows) .standard).run heldMerge).after (.recalculate .dirty)
  let p : Position := ⟨firstSheet, 1, 3⟩
  have hshown : (e.workbook.value p).kindName = "boolean" := by decide +kernel
  have hmeant : (e.workbook.tree? p).any (fun x =>
      (evaluate e.context p.sheet x).kindName == "number") = true := by decide +kernel
  have hlink : e.workbook.linkKind? p = none := by decide +kernel
  obtain ⟨x, hx, hmeant⟩ := (Option.any_eq_true _ _).mp hmeant
  obtain ⟨c, hc, hx⟩ := Option.bind_eq_some_iff.mp hx
  obtain ⟨f, hf, hparsed⟩ := Cell.tree?_eq_some.mp hx
  have hlinked : f.linkError = none := by
    unfold Workbook.linkKind? at hlink
    rw [hc] at hlink
    obtain ⟨content, value, flags⟩ := c
    cases hf
    exact Option.map_eq_none_iff.mp hlink
  rw [Workbook.value_of_cell hc] at hshown
  rcases h.evaluated p c f x hc hf hparsed hlinked with ⟨⟨problem, herror, -⟩, -⟩ | hagrees
  · rw [herror] at hshown
    have hshown : "error" = "boolean" := hshown
    exact absurd hshown (by decide)
  · have hkind := hagrees.kindName_eq
    rw [hshown, beq_iff_eq.mp hmeant] at hkind
    exact absurd hkind (by decide)

end Engine

end Spreadsheet
