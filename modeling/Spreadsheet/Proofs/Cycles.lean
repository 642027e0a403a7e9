import Spreadsheet.Proofs.Faults
import Spreadsheet.Proofs.Histories

/-!
# Cycles: what a recalculation makes of them

A pass finds a cycle when a cell waits for one that is on the stack already, and makes circular errors of
the cells between the two. So where cycles share cells, which of these become circular errors depends on
the order in which they are taken up, and a cell on a cycle may be left that merely reads one of them
(`referenced_overlappingCycles`). In every reachable engine and for every recalculation of all dirty cells
or all cells, `Engine.CyclesFound` says what holds of all cells:

* there is a circular error on every cycle, and a cycle that shares no cell with another one has nothing
  else;
* a computed cell becomes a circular error exactly if it lies on a cycle of cells that were all unfinished
  when it was taken up;
* every other formula shows what it evaluates to, and one that merely reads an error has an error in a
  referenced cell.

The main result is `Reachable.cyclesFound`.
-/

namespace Spreadsheet

open DependencyGraph Relation

namespace Engine

/-- The state in which the pass of a recalculation begins: the loaded formulas have been read, and what
the scope covers is marked. -/
def passStart (e : Engine) (scope : PassScope) : Pass :=
  (e.readAllLoaded.prepared scope).passState e.readAllLoaded.dirty

/-- The state in which it ends. -/
def passEnd (e : Engine) (scope : PassScope) : Pass := e.readAllLoaded.pass scope

/-- What a pass from `s₀` to `s` has made of the cycles in the engine that it left. -/
structure CyclesFound (e : Engine) (s₀ s : Pass) : Prop where
  workbook_eq : e.workbook = s.workbook
  /-- No cell is left dirty. -/
  clean : ∀ p, p ∉ e.dirty
  /-- Every cycle has a cell with a circular error. -/
  caught : ∀ p,
    ¬TransGen (fun r q => e.graph.Reads r q ∧ ¬(e.workbook.value r).IsErrorOf .circular) p p
  /-- On a cycle that shares no cell with another one, every cell has one. -/
  rings : ∀ p, e.graph.OnRing p → (e.workbook.value p).IsErrorOf .circular
  /-- A cell becomes a circular error without evaluation only on a cycle. -/
  circular : ∀ p ∈ s.circular,
    p ∈ s.computed ∧ e.graph.OnCycle p ∧ (e.workbook.value p).IsErrorOf .circular
  /-- A computed cell does so exactly if it lies on a cycle of cells that were all unfinished when it was
  taken up. -/
  moment : ∀ p ∈ s.computed, ∃ u v, Pass.Leads e.surroundings s₀ u ∧
    Pass.TakesUp e.surroundings u v p ∧ Pass.Leads e.surroundings v s ∧
      (p ∈ s.circular ↔ e.graph.CycleWithin u.dirty p)
  /-- Every other formula that was computed and has no error without evaluation shows what it evaluates
  to. -/
  evaluated : ∀ p ∈ s.computed, p ∉ s.circular → ∀ c f x, e.workbook.cell? p = some c →
    c.content = .formula f → f.parsed = some (.ok x) → f.linkError = none →
      c.value.Agrees (evaluate e.context p.sheet x)
  /-- If it reads an error that is not hidden, it shows an error, and an error in a referenced cell if the
  formula has no fault of its own. -/
  referenced : ∀ p ∈ s.computed, p ∉ s.circular → ∀ c f x, e.workbook.cell? p = some c →
    c.content = .formula f → f.parsed = some (.ok x) → f.linkError = none →
      ∀ q, e.graph.Reads p q → e.workbook.isObscured q = false → (e.workbook.value q).isError = true →
        c.value.isError = true ∧
          (e.context.IsFaultless p.sheet x → c.value.IsErrorOf .referencedCell)

variable {library : Library} {e : Engine}

/-- What a linked formula reads is meant by one of its references. -/
theorem exists_reference_of_reads {p q : Position} {x : Expr} (hp : e.LinkedAt p)
    (hx : e.workbook.tree? p = some x) (hreads : e.graph.Reads p q) :
    ∃ entry ∈ x.references, ∃ a, e.context.resolve entry.2 p.sheet = .ok a ∧ a.covers q = true := by
  obtain ⟨a, ha, hcovers⟩ := (reads_iff_wouldRead hp).mp hreads
  obtain ⟨y, hy, entry, hentry, hmeans⟩ := exists_reference_of_mem_areas ha
  rw [hx] at hy
  cases hy
  exact ⟨entry, hentry, a, hmeans, hcovers⟩

/-- A dirty cell is still dirty when the loaded formulas have been read. -/
theorem mem_dirty_readAllLoaded (h : e.Consistent) {p : Position}
    (hstored : (e.readAllLoaded.workbook.cell? p).isSome = true) (hp : p ∈ e.dirty) :
    p ∈ e.readAllLoaded.dirty := by
  by_contra hnot
  obtain ⟨-, hchange, -⟩ := readAllLoaded_spec h
  obtain ⟨q, hq, halike⟩ := hchange.source p hstored hnot
  obtain rfl : q = p := Option.some.inj hq
  exact halike.clean hp

/-- A recalculation of more than one cell computes every dirty cell, and a full one computes every cell. -/
theorem computed_recompute (h : e.Consistent) {scope : PassScope} (hwhole : ∀ p, scope ≠ .cell p) {p : Position}
    (hstored : ((e.recompute scope).1.workbook.cell? p).isSome = true) (hp : p ∈ e.dirty ∨ scope = .full) :
    p ∈ (e.passEnd scope).computed := by
  obtain ⟨hread, -, -⟩ := readAllLoaded_spec h
  have hm := markedBy_prepared e.readAllLoaded scope
  obtain ⟨hpassed, -, -⟩ := passed_pass hread scope (e.recompute scope).1 rfl
  have hstored₀ : (e.readAllLoaded.workbook.cell? p).isSome = true := by
    rw [← hm.isSome_cell?, ← hpassed.isSome_cell?]
    exact hstored
  have hmarked : p ∈ (e.readAllLoaded.prepared scope).dirty := by
    rw [hm.mem_dirty]
    rcases hp with hp | rfl
    · exact Or.inl (mem_dirty_readAllLoaded h hstored₀ hp)
    · exact Or.inr ⟨(Workbook.mem_positions hread.wellFormed).mpr hstored₀, hstored₀⟩
  by_contra hnot
  exact clean_recompute h hwhole p ((hpassed.mem_dirty p).mpr ⟨hmarked, hnot⟩)

/-- A computed cell that is no circular error holds what its formula evaluates to. -/
theorem evaluated_recompute (h : e.Consistent) (scope : PassScope) {p : Position}
    (hp : p ∈ (e.passEnd scope).computed) (hnot : p ∉ (e.passEnd scope).circular) {c : Cell} {f : Formula} {x : Expr}
    (hcell : (e.recompute scope).1.workbook.cell? p = some c) (hf : c.content = .formula f)
    (hparsed : f.parsed = some (.ok x)) (hlink : f.linkError = none) :
    c.value.Agrees (evaluate (e.recompute scope).1.context p.sheet x) := by
  obtain ⟨hread, -, -⟩ := readAllLoaded_spec h
  obtain ⟨hpassed, -, -⟩ := passed_pass hread scope (e.recompute scope).1 rfl
  rw [← Workbook.value_of_cell hcell, hpassed.context_eq, hpassed.workbook_eq]
  have hstatic : (e.recompute scope).1.workbook.staticKind? p = none := by
    rw [Workbook.staticKind?_of_cell hcell hf]
    unfold Formula.staticError?
    rw [hparsed]
    dsimp only
    rw [hlink]
    rfl
  have htree := Workbook.tree?_of_cell hcell hf hparsed
  rw [hpassed.workbook_eq] at hstatic htree
  exact (hpassed.sound.valid.evaluated p hp hnot).2 x hstatic htree

/-- **What a recalculation makes of cycles.** After a recalculation of all dirty cells or of all cells of a
reachable engine, every cell that the scope covers has been computed, and the cycles have been found. -/
theorem Reachable.cyclesFound (h : Reachable library e) {scope : PassScope}
    (hscope : scope = .dirty ∨ scope = .full) :
    (∀ p, ((e.after (.recalculate scope)).workbook.cell? p).isSome = true →
        p ∈ e.dirty ∨ scope = .full → p ∈ (e.passEnd scope).computed) ∧
      CyclesFound (e.after (.recalculate scope)) (e.passStart scope) (e.passEnd scope) := by
  have hwhole : ∀ p, scope ≠ .cell p := by
    rcases hscope with rfl | rfl <;> simp
  have hafter : e.after (.recalculate scope) = (e.recompute scope).1 := by
    rcases hscope with rfl | rfl <;> rfl
  obtain ⟨hread, -, -⟩ := readAllLoaded_spec h.consistent
  obtain ⟨hpassed, hleads, -⟩ := passed_pass hread scope (e.recompute scope).1 rfl
  have hconsistent := consistent_recompute h.consistent scope
  have hclean : ∀ p, p ∉ (e.recompute scope).1.dirty := clean_recompute h.consistent hwhole
  have hstale := not_stale_of_clean hclean
  have hground := ground_surroundings (orderly_prepared hread scope) (linkedAt_prepared hread scope)
  rw [hafter]
  refine ⟨fun p hstored hp => computed_recompute h.consistent hwhole hstored hp, ?_⟩
  constructor
  case workbook_eq => rfl
  case clean => exact hclean
  case caught =>
    intro p hcycle
    refine caught_recompute h.consistent h.caught scope p (TransGen.mono ?_ _ _ hcycle)
    exact fun r q hopen => ⟨hopen.1, hstale r, hopen.2⟩
  case rings => exact fun p hring => ringsCaught_recompute h.consistent h.ringsCaught scope p (hstale p) hring
  case circular =>
    intro p hp
    obtain ⟨hcycle, hvalue⟩ := hpassed.sound.valid.marked p hp
    refine ⟨hpassed.sound.valid.circular_mem p hp, ?_, ⟨_, hvalue, rfl⟩⟩
    rw [hpassed.graph_eq]
    exact hcycle
  case moment =>
    intro p hp
    have hsound := sound_passState (orderly_prepared hread scope).wellFormed e.readAllLoaded.dirty
    rw [surroundings_prepared] at hground hsound
    exact Pass.circular_iff_cycleWithin hsound hground rfl rfl hleads hpassed.ended hp
  case evaluated =>
    intro p hc hnot c f x hcell hf hparsed hlink
    exact evaluated_recompute h.consistent scope hc hnot hcell hf hparsed hlink
  case referenced =>
    intro p hc hnot c f x hcell hf hparsed hlink q hreads hseen herror
    have hagrees := evaluated_recompute h.consistent scope hc hnot hcell hf hparsed hlink
    have htree := Workbook.tree?_of_cell hcell hf hparsed
    obtain ⟨entry, hentry, a, hmeans, hcovers⟩ :=
      exists_reference_of_reads (hconsistent.linked p) htree hreads
    refine ⟨?_, fun hfault => ?_⟩
    · rw [hagrees.isError_eq]
      exact isError_evaluate hentry hmeans hcovers hseen herror
    · obtain ⟨problem, hvalue, hkind⟩ :=
        kind_evaluate_of_reads hfault hentry hmeans hcovers hseen herror
      exact Value.IsErrorOf.of_agrees ⟨problem, hvalue, hkind⟩ hagrees.symm

/-! ### Cycles that share cells -/

/-- Calls on a grid of the default size, after which the cells `A1`, `B1` form one cycle and `A1`, `C1`,
`B1` another one. -/
def overlappingCycles : List Call :=
  [.addSheet "S", .setFormula firstSheet (.plain 1 1) "=B1+C1", .setFormula firstSheet (.plain 2 1) "=A1",
    .setFormula firstSheet (.plain 3 1) "=B1"]

theorem reachable_overlappingCycles : Reachable .standard ((start {} .standard).run overlappingCycles) :=
  (Reachable.start {} ⟨by decide, by decide⟩).run overlappingCycles

theorem cyclesFound_overlappingCycles :
    Reachable .standard ((start {} .standard).run overlappingCycles) ∧
      (PassScope.full = .dirty ∨ PassScope.full = .full) ∧
      (∀ p, ((((start {} .standard).run overlappingCycles).after (.recalculate .full)).workbook.cell?
          p).isSome = true → p ∈ ((start {} .standard).run overlappingCycles).dirty ∨ PassScope.full = .full →
        p ∈ (((start {} .standard).run overlappingCycles).passEnd .full).computed) ∧
      CyclesFound (((start {} .standard).run overlappingCycles).after (.recalculate .full))
        (((start {} .standard).run overlappingCycles).passStart .full)
        (((start {} .standard).run overlappingCycles).passEnd .full) :=
  ⟨reachable_overlappingCycles, .inr rfl,
    Reachable.cyclesFound reachable_overlappingCycles (.inr rfl)⟩

/-- **Not every cell on a cycle becomes a circular error.** The cycle through `B1` is found when only `A1`
and `B1` are on the stack. Both are finished before `C1` is taken up, which then reads a finished error. -/
theorem referenced_overlappingCycles :
    Reachable .standard (((start {} .standard).run overlappingCycles).after (.recalculate .full)) ∧
      (((start {} .standard).run overlappingCycles).after (.recalculate .full)).dirty.isEmpty = true ∧
      (((start {} .standard).run overlappingCycles).after (.recalculate .full)).graph.OnCycle
        ⟨firstSheet, 1, 3⟩ ∧
      ((((start {} .standard).run overlappingCycles).after (.recalculate .full)).workbook.value
        ⟨firstSheet, 1, 3⟩).IsErrorOf .referencedCell ∧
      ¬((((start {} .standard).run overlappingCycles).after (.recalculate .full)).workbook.value
        ⟨firstSheet, 1, 3⟩).IsErrorOf .circular := by
  let e := ((start {} .standard).run overlappingCycles).after (.recalculate .full)
  let a : Position := ⟨firstSheet, 1, 1⟩
  let b : Position := ⟨firstSheet, 1, 2⟩
  let c : Position := ⟨firstSheet, 1, 3⟩
  have hreads : e.graph.precedentsOf a = [.point b, .point c] ∧ e.graph.precedentsOf b = [.point a] ∧
      e.graph.precedentsOf c = [.point b] := by decide +kernel
  have hshown : (e.workbook.value c).errorKind? = some .referencedCell := by decide +kernel
  have hac : e.graph.Reads a c := ⟨.point c, by rw [hreads.1]; decide, by decide⟩
  have hba : e.graph.Reads b a := ⟨.point a, by rw [hreads.2.1]; decide, by decide⟩
  have hcb : e.graph.Reads c b := ⟨.point b, by rw [hreads.2.2]; decide, by decide⟩
  have hcycle : e.graph.OnCycle c := .head hcb (.head hba (.single hac))
  refine ⟨reachable_overlappingCycles.call _, by decide +kernel, hcycle, Value.errorKind?_eq_some.mp hshown, ?_⟩
  intro hcircular
  rw [Value.errorKind?_eq_some.mpr hcircular] at hshown
  exact absurd hshown (by decide)

end Engine

end Spreadsheet
