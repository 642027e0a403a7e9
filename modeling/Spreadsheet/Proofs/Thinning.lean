import Spreadsheet.Engine.Cells
import Spreadsheet.Proofs.Invariants
import Spreadsheet.Proofs.Regions
import Spreadsheet.Proofs.Sheets

/-!
# Thinning: calls that enter nothing

Many calls store no cell. They take cells away, or leave all of them where they are (`Engine.Thins`), and then do
what follows every edit. A property of the stored cells, one by one, and of the list of those that are unread, is
lost by neither (`Engine.IsCellwise`):

* `Workbook.every_modifyCell`, `Workbook.every_eraseCell`, `Workbook.every_insertCell` — what holds of every cell
  of a workbook is kept if it holds of the one that is changed;
* `thins_take`, `thins_withoutSheet`, `thins_of_cells` — where cells are taken away, and where none is;
* `IsCellwise.emptyCell`, `IsCellwise.mergeCells`, `IsCellwise.addSheet` and the like — the calls that keep such a
  property.
-/

namespace Spreadsheet

open Grid DependencyGraph

/-! ### Workbooks -/

namespace Workbook

variable {w : Workbook} {Holds : Position → Cell → Prop} (h : ∀ p c, w.cell? p = some c → Holds p c)
include h

theorem every_modifyCell (p : Position) {change : Cell → Cell}
    (hchange : ∀ c, w.cell? p = some c → Holds p c → Holds p (change c)) :
    ∀ q c, (w.modifyCell p change).cell? q = some c → Holds q c := by
  intro q c' hc'
  rw [cell?_modifyCell] at hc'
  split at hc'
  · next hq =>
    obtain ⟨c, hc, rfl⟩ := Option.map_eq_some_iff.mp hc'
    exact hq ▸ hchange c hc (h p c hc)
  · exact h q c' hc'

theorem every_eraseCell (p : Position) :
    ∀ q c, (w.eraseCell p).cell? q = some c → q ≠ p ∧ Holds q c := by
  intro q c hc
  rw [cell?_eraseCell] at hc
  split at hc
  · cases hc
  · next hq => exact ⟨hq, h q c hc⟩

theorem every_insertCell {p : Position} {c : Cell} (hc : Holds p c) :
    ∀ q d, (w.insertCell p c).cell? q = some d → Holds q d := by
  intro q d hd
  rw [cell?_insertCell] at hd
  split at hd
  · next hq =>
    split at hd
    · cases hd
      exact hq ▸ hc
    · cases hd
  · exact h q d hd

end Workbook

namespace Engine

variable {e e' : Engine}

/-! ### Where cells are taken away -/

/-- An engine has only cells that another one has as well, and of those the same are listed as unread. -/
structure Thins (e e' : Engine) : Prop where
  settings_eq : e'.settings = e.settings
  cell? : ∀ p c, e'.workbook.cell? p = some c → e.workbook.cell? p = some c
  unread : ∀ p c, e'.workbook.cell? p = some c → p ∈ e.unread → p ∈ e'.unread
  listed : ∀ p, p ∈ e'.unread → p ∈ e.unread

theorem thins_of_cells {w' : Workbook} {names : NamedAreas} (hcell : w'.cell? = e.workbook.cell?) :
    e.Thins { e with workbook := w', names } := by
  refine ⟨rfl, fun p c hc => ?_, fun _ _ _ hp => hp, fun _ hp => hp⟩
  rw [← hcell]
  exact hc

theorem thins_take (e : Engine) (p : Position) : e.Thins (e.take p) := by
  unfold take
  split
  · have hcell : ∀ q c, (e.workbook.eraseCell p).cell? q = some c → q ≠ p ∧ e.workbook.cell? q = some c :=
      Workbook.every_eraseCell (fun _ _ hc => hc) p
    refine ⟨rfl, fun q c hc => (hcell q c hc).2, fun q c hc hq => ?_, fun q hq => ?_⟩
    · exact (mem_erase_iff _ _ _).mpr ⟨(hcell q c hc).1, hq⟩
    · exact ((mem_erase_iff _ _ _).mp hq).2
  · exact thins_of_cells rfl

theorem thins_withoutSheet {id : SheetId} {sheet : Sheet} {w' : Workbook}
    (hremove : e.workbook.removeSheet id = .ok (w', sheet)) : e.Thins (e.withoutSheet id sheet w') := by
  have hcell : ∀ p c, w'.cell? p = some c → p.sheet ≠ id ∧ e.workbook.cell? p = some c := by
    intro p c hc
    rw [cell?_removeSheet hremove] at hc
    split at hc
    · cases hc
    · next hp => exact ⟨hp, hc⟩
  refine ⟨rfl, fun p c hc => (hcell p c hc).2, fun p c hc hp => ?_, fun p hp => ?_⟩
  · exact (mem_filter_iff _ _ _).mpr ⟨hp, bne_iff_ne.mpr (hcell p c hc).1⟩
  · exact ((mem_filter_iff _ _ _).mp hp).1

/-! ### Calls -/

/-- A property of the stored cells, one by one, and of the list of the unread ones: it is kept where cells are taken
away, and by what follows every edit. -/
structure IsCellwise (P : Engine → Prop) : Prop where
  thinned : ∀ {e e' : Engine}, P e → e.Thins e' → P e'
  relinked : ∀ {e : Engine}, P e → ∀ ps seeds, P ((e.relinkAll ps).markDirty seeds).afterEdit

namespace IsCellwise

variable {P : Engine → Prop} (hP : IsCellwise P) (h : P e)
include hP h

theorem marked (seeds : List Position) : P (e.markDirty seeds).afterEdit := hP.relinked h [] seeds

theorem emptyCell (p : Position) : P (e.emptyCell p) := by
  unfold Engine.emptyCell
  split
  · exact h
  · have htake := thins_take e p
    refine hP.marked (hP.thinned h ?_) [p]
    exact ⟨htake.settings_eq, htake.cell?, htake.unread, htake.listed⟩

theorem defineName (name : String) (sheet : SheetId) (rect : Rect) : P (e.defineName name sheet rect).engine := by
  refine perform_keeps h fun names _ => ?_
  exact hP.relinked (hP.thinned h (thins_of_cells rfl)) _ _

theorem removeName (name : String) : P (e.removeName name).2 := by
  unfold Engine.removeName
  split
  · exact h
  · exact hP.relinked (hP.thinned h (thins_of_cells rfl)) _ _

/-- The merged regions of a sheet are none of its cells. -/
theorem replaceMerges {id : SheetId} {s : Sheet} (hs : e.workbook.sheet? id = some s) (rect : Rect)
    (merges : List Rect) : P (e.replaceMerges id rect { s with merges }) := by
  refine hP.marked (hP.thinned h (thins_of_cells (funext fun p => ?_))) _
  exact Workbook.cell?_modifySheet_of_cells hs (t := { s with merges }) rfl p

theorem mergeCells (id : SheetId) (rect : Rect) : P (e.mergeCells id rect).engine := by
  refine perform_keeps h fun sheet hsheet => ?_
  obtain ⟨s, hs, -, -, rfl⟩ := merged_eq_ok hsheet
  exact hP.replaceMerges h hs rect _

theorem unmergeCells (id : SheetId) (rect : Rect) : P (e.unmergeCells id rect).engine := by
  refine perform_keeps h fun s hget => ?_
  cases hremove : s.removeMerge rect with
  | none => exact h
  | some sheet =>
    rw [removeMerge_eq_some hremove]
    exact hP.replaceMerges h (sheet?_of_get hget) rect _

theorem addSheet (hw : e.workbook.WellFormed) (name : String) : P (e.addSheet name).engine := by
  refine perform_keeps h fun ⟨w', id⟩ hadd => ?_
  show P ({ e with workbook := w' } : Engine).relinkUnresolved.afterEdit
  rw [relinkUnresolved_eq]
  exact hP.relinked (hP.thinned h (thins_of_cells (cell?_addSheet hw hadd))) _ _

theorem removeSheet (id : SheetId) : P (e.removeSheet id).engine := by
  refine perform_keeps h fun ⟨w', sheet⟩ hremove => ?_
  exact hP.relinked (hP.thinned h (thins_withoutSheet hremove)) _ _

end IsCellwise

end Engine

end Spreadsheet
