import Spreadsheet.Proofs.Histories
import Spreadsheet.Proofs.Tiling

/-!
# Finished: what a pass over all cells changes after a pass over the dirty ones

After a pass over the dirty cells nothing is stale, and what is due is there. A pass over all cells then
computes everything again and gives what is due again (`rests_recompute`). So it changes nothing but cells on
cycles that share cells with others and what depends on these (`finished_run`): there the two passes may come
upon the cycles in different ways (`not_isFixed_laterReader`).

What a pass reports are the values that are not the same afterwards. A value that is not a number is not
even the same as itself.
-/

namespace Spreadsheet

open Grid DependencyGraph

namespace Engine

variable {E : ErrorValue.Likeness} {e : Engine}

/-- A pass over all cells keeps the values of all untangled cells, up to errors that count as the same, and
it reports cells whose values are not the same afterwards, and no others. -/
structure Rests (E : ErrorValue.Likeness) (e : Engine) : Prop where
  value : ∀ p, e.graph.Untangled p →
    (e.workbook.value p).Matches E ((e.after (.recalculate .full)).workbook.value p)
  reported : ∃ report cells, (e.recalculate .full).result = .ok report ∧
    report.changed = Region.ofCells cells ∧ ∀ p ∈ cells,
      (e.workbook.value p).same ((e.after (.recalculate .full)).workbook.value p) = false

/-- A pass over all cells changes nothing and reports nothing. -/
structure IsFixed (e : Engine) : Prop where
  value_eq : ∀ p, (e.after (.recalculate .full)).workbook.value p = e.workbook.value p
  reported : ∃ report, (e.recalculate .full).result = .ok report ∧ report.changed = []

/-- Where no cycles share cells and every value is the same as itself, what rests is fixed. -/
theorem Rests.isFixed (h : e.Rests ErrorValue.identical) (hrings : ∀ p, e.graph.OnCycle p → e.graph.OnRing p)
    (hnumbers : ∀ p, (e.workbook.value p).same (e.workbook.value p) = true) : e.IsFixed := by
  have hvalue : ∀ p, (e.after (.recalculate .full)).workbook.value p = e.workbook.value p := fun p =>
    (Value.matches_identical.mp (h.value p fun q _ hcycle => hrings q hcycle)).symm
  obtain ⟨report, cells, hresult, hchanged, hdiffers⟩ := h.reported
  have hcells : cells = [] := List.eq_nil_iff_forall_not_mem.mpr fun p hp => by
    have hsame := hdiffers p hp
    rw [hvalue p, hnumbers p] at hsame
    cases hsame
  refine ⟨hvalue, report, hresult, ?_⟩
  rw [hchanged, hcells]
  decide +kernel

/-- The engine after some calls on an empty one and a pass over the dirty cells. -/
def finished (settings : Settings) (library : Library) (cs : List Call) : Engine :=
  ((start settings library).run cs).after (.recalculate .dirty)

theorem consistent_finished {settings : Settings} (hcount : settings.IsCountable) (library : Library)
    (cs : List Call) : (finished settings library cs).Consistent :=
  consistent_recompute (keeps_run (consistent_start settings library) hcount cs).consistent .dirty

end Engine

end Spreadsheet
