import Spreadsheet.Proofs.Notifying
import Spreadsheet.Proofs.Pulling

/-!
# Containing: how far an edit of one cell reaches

In an engine that has just recalculated all dirty cells nothing is dirty, and nothing waits to be read or
reported (`Engine.Rested`). An edit of one cell then makes dirty what depends on the cell, and no more
(`Engine.EditedAt`). This is told from the graph after the edit, which may have changed what the cell itself
reads, but no other cell. So the recalculation that follows computes what depends on the cell, leaves all
else as it was, and reports no change elsewhere (`Engine.ContainsEdit`).

The main result is `Reachable.containsEdit`.
-/

namespace Spreadsheet

open Grid DependencyGraph Relation

/-- The cells that depend on a cell: those that are reached from it by going from cells to their readers. -/
def DependencyGraph.affectedBy (g : DependencyGraph) (p : Position) : Set Position :=
  {q | ReflTransGen (fun cell reader => reader ∈ g.readersOf cell) p q}

/-- What depends on a cell reads it, directly or through others. -/
theorem DependencyGraph.mem_affectedBy {g : DependencyGraph} (hg : g.IsSymmetric) {p q : Position} :
    q ∈ g.affectedBy p ↔ ReflTransGen g.Reads q p := by
  have hreaders : (fun cell reader => reader ∈ g.readersOf cell) = Function.swap g.Reads :=
    funext fun cell => funext fun reader => propext (mem_readersOf hg)
  unfold affectedBy
  rw [hreaders]
  exact reflTransGen_swap

/-- The calls that write to one cell. -/
inductive Call.WritesTo (sheet : SheetId) (a : Address) : Call → Prop
  | setFormula (text : String) : WritesTo sheet a (.setFormula sheet a text)
  | setValue (v : Value) : WritesTo sheet a (.setValue sheet a v)
  | clearCell : WritesTo sheet a (.clearCell sheet a)

namespace Engine

/-- A call that writes to a cell, followed by a recalculation of all dirty cells, reaches what depends on the
cell after the call, and nothing else. -/
structure ContainsEdit (e : Engine) (c : Call) (p : Position) : Prop where
  /-- The recalculation computes the stored cells that depend on the cell, each of them once. -/
  computes : (e.after c).Computes .dirty
    {q | ((e.after c).workbook.cell? q).isSome = true ∧ q ∈ (e.after c).graph.affectedBy p}
  /-- Every other cell is as it was before the call. -/
  apart : ∀ q, q ∉ (e.after c).graph.affectedBy p →
    ((e.after c).after (.recalculate .dirty)).workbook.cell? q = e.workbook.cell? q
  /-- No change is reported anywhere else. -/
  within : ∀ report, ((e.after c).recalculate .dirty).result = .ok report →
    ∀ region ∈ report.changed, ∀ q, region.covers q = true → q ∈ (e.after c).graph.affectedBy p

/-- Nothing is dirty, and nothing waits to be read or reported. -/
structure Rested (e : Engine) : Prop where
  clean : ∀ q, q ∉ e.dirty
  read : ∀ q, q ∉ e.unread
  reported : ∀ q, q ∉ e.changes

/-- What an edit of one cell makes of an engine in which everything rests. -/
structure EditedAt (p : Position) (e e' : Engine) : Prop where
  consistent : e'.Consistent
  read : ∀ q, q ∉ e'.unread
  mem_dirty : ∀ q, q ∈ e'.dirty ↔ (e'.workbook.cell? q).isSome = true ∧ ReflTransGen e'.graph.Reads q p
  cell_eq : ∀ q, ¬ReflTransGen e'.graph.Reads q p → e'.workbook.cell? q = e.workbook.cell? q
  changes : ∀ q ∈ e'.changes, q = p

/-! ### The edit -/

section Edit

variable {e : Engine} {p : Position}

/-- **An edit of one cell makes dirty what depends on the cell**, and leaves all other cells alone. -/
theorem editedAt_of_edit (hrested : e.Rested) {e₁ : Engine} {ps : List Position}
    (hrewritten : Rewritten p e e₁) (hedit : Edit some e e₁ ps [p]) (hps : ∀ q ∈ ps, q = p)
    (hread : p ∉ e₁.unread) (hchanges : ∀ q ∈ e₁.changes, q ∈ e.changes ∨ q = p) :
    EditedAt p e ((e₁.relinkAll ps).markDirty [p]) := by
  obtain ⟨-, hm⟩ := hedit.finished
  have hup := upToLinks_relinkAll e₁ ps
  have hchanges_eq : ((e₁.relinkAll ps).markDirty [p]).changes = e₁.changes := by
    rw [hm.rest_eq, hup.rest_eq]
  constructor
  case consistent => exact hedit.consistent
  case read =>
    intro q
    rw [hedit.unread_eq]
    by_cases hq : q = p
    · exact hq ▸ hread
    · rw [hrewritten.unread_iff q hq]
      exact hrested.read q
  case mem_dirty =>
    intro q
    rw [hedit.mem_dirty, hedit.isSome_after]
    simp only [List.mem_singleton, exists_eq_left]
    refine or_iff_right_of_imp fun hq => ?_
    by_cases hqp : q = p
    · exact ⟨hedit.orderly.stored q hq, hqp ▸ ReflTransGen.refl⟩
    · exact absurd ((hrewritten.dirty_iff q hqp).mp hq) (hrested.clean q)
  case cell_eq =>
    intro q hq
    rw [hm.graph_eq] at hq
    have hqp : q ≠ p := fun heq => hq (heq ▸ ReflTransGen.refl)
    rw [hm.cell_unmarked q (by simpa using hq), cell?_relinkAll e₁ fun hmem => hqp (hps q hmem)]
    exact hrewritten.cell_eq q hqp
  case changes =>
    intro q hq
    rw [hchanges_eq] at hq
    exact (hchanges q hq).resolve_left (hrested.reported q)

/-- What follows an edit changes nothing more, as long as nothing is recalculated by itself. -/
theorem editedAt_afterEdit (hmanual : e.settings.autoRecalculate = false) {e' : Engine}
    (hsettings : e'.settings = e.settings) (hedited : EditedAt p e e') : EditedAt p e e'.afterEdit := by
  rw [afterEdit_of_manual (by rw [hsettings]; exact hmanual)]
  exact hedited

variable (h : e.Consistent) (hrested : e.Rested) (hmanual : e.settings.autoRecalculate = false)
include h hrested hmanual

/-- Emptying a cell is an edit of it, if something is stored there. -/
theorem editedAt_emptyCell
    (hstored : (e.workbook.cell? p).isSome = true ∨ ((e.emptyCell p).workbook.cell? p).isSome = true) :
    EditedAt p e (e.emptyCell p) := by
  unfold emptyCell at hstored ⊢
  cases hc : e.workbook.cell? p with
  | none => simp [hc] at hstored
  | some previous =>
    obtain ⟨-, -, -, hread, -⟩ := take_spec h p
    obtain ⟨-, htaken, -, -⟩ := take_quiet e p
    obtain ⟨hrewritten, hedit⟩ := edit_withoutCell h p
      (if previous.value.isEmpty then (e.take p).changes else (e.take p).changes.insert p)
    refine editedAt_afterEdit hmanual hedit.change.settings_eq
      (editedAt_of_edit hrested hrewritten hedit (fun _ hq => absurd hq List.not_mem_nil) hread ?_)
    intro q hq
    unfold withoutCell at hq
    dsimp only at hq
    rw [htaken] at hq
    split at hq
    · exact Or.inl hq
    · exact ((mem_insert_iff _ _ _).mp hq).symm

/-- Storing another cell is an edit of it. -/
theorem editedAt_store (hsheet : e.workbook.contains p.sheet = true) {changes : PositionSet}
    (hchanges : ∀ q ∈ changes, q ∈ e.changes ∨ q = p) {c : Cell} (hc : c.IsOrderly e.readFormula)
    (hdirty : c.flags.dirty = true) {ps : List Position} (hps : ∀ q ∈ ps, q = p)
    (hlinked : (c.tree? = none ∧ c.linkKind? = none) ∨ (p ∈ ps ∧ ∀ f, c.content = .formula f → f.parsed ≠ none)) :
    EditedAt p e (((({ e.take p with changes } : Engine).store p c).relinkAll ps).markDirty [p]).afterEdit := by
  obtain ⟨-, -, -, hread, -⟩ := take_spec h p
  have hedit := edit_store h p changes hsheet hc hdirty ps hlinked
  exact editedAt_afterEdit hmanual hedit.change.settings_eq
    (editedAt_of_edit hrested ((rewritten_take h p changes).store c) hedit hps hread hchanges)

theorem editedAt_putValue (hsheet : e.workbook.contains p.sheet = true) (v : Value)
    (hstored : (e.workbook.cell? p).isSome = true ∨ ((e.putValue p v).workbook.cell? p).isSome = true) :
    EditedAt p e (e.putValue p v) := by
  unfold putValue at hstored ⊢
  split
  · next hempty =>
    rw [if_pos hempty] at hstored
    exact editedAt_emptyCell h hrested hmanual hstored
  · refine editedAt_store h hrested hmanual hsheet ?_ (isOrderly_constant _ v) rfl
      (fun _ hq => absurd hq List.not_mem_nil) (Or.inl ⟨rfl, rfl⟩)
    intro q hq
    split at hq
    · exact ((mem_insert_iff _ _ _).mp hq).symm
    · exact Or.inl hq

theorem editedAt_putFormula (hsheet : e.workbook.contains p.sheet = true) (text : String) :
    EditedAt p e (e.putFormula p text) := by
  obtain ⟨c, hc, hdirty, hparsed, heq⟩ := putFormula_spec e p text
  rw [heq]
  exact editedAt_store h hrested hmanual hsheet (fun q hq => Or.inl ((take_quiet e p).2.1 ▸ hq)) hc hdirty
    (fun _ => List.mem_singleton.mp) (Or.inr ⟨List.mem_singleton.mpr rfl, hparsed⟩)

/-- **Every call that writes to a cell is an edit of it**, if something is stored there before or after. -/
theorem editedAt_after {sheet : SheetId} {a : Address} {c : Call} (hc : c.WritesTo sheet a)
    (hin : a.isWithin e.settings.columns e.settings.rows = true)
    (hstored : (e.workbook.cell? (.ofAddress sheet a)).isSome = true ∨
      ((e.after c).workbook.cell? (.ofAddress sheet a)).isSome = true) :
    EditedAt (.ofAddress sheet a) e (e.after c) := by
  have hact : ∃ act : Position → Engine, e.after c = (e.edit (e.locate sheet a) act).engine ∧
      ∀ p, e.workbook.contains p.sheet = true → (e.workbook.cell? p).isSome = true ∨
        ((act p).workbook.cell? p).isSome = true → EditedAt p e (act p) := by
    cases hc with
    | setFormula text =>
      refine ⟨_, rfl, fun p hsheet hstored => ?_⟩
      split
      · exact editedAt_putFormula h hrested hmanual hsheet text
      · next hconstant =>
        rw [if_neg hconstant] at hstored
        exact editedAt_putValue h hrested hmanual hsheet _ hstored
    | setValue v => exact ⟨_, rfl, fun p hsheet => editedAt_putValue h hrested hmanual hsheet v⟩
    | clearCell => exact ⟨_, rfl, fun p _ => editedAt_emptyCell h hrested hmanual⟩
  obtain ⟨act, heq, hact⟩ := hact
  rw [heq] at hstored ⊢
  cases hsheet : e.workbook.contains sheet with
  | true =>
    rw [locate_of_contains hsheet hin] at hstored ⊢
    exact hact (.ofAddress sheet a) hsheet hstored
  | false =>
    rw [locate_of_not_contains hsheet] at hstored
    have hsheet' := Workbook.contains_of_cell? (hstored.elim id id)
    rw [show (Position.ofAddress sheet a).sheet = sheet from rfl, hsheet] at hsheet'
    cases hsheet'

end Edit

/-- **Whatever an edit of one cell reaches depends on the cell.** -/
theorem containsEdit_of_editedAt {e : Engine} {c : Call} {p : Position} (hedited : EditedAt p e (e.after c)) :
    e.ContainsEdit c p := by
  obtain ⟨hconsistent, hread, hdirty, hcell, hchanges⟩ := hedited
  have haffected : ∀ q, q ∈ (e.after c).graph.affectedBy p ↔ ReflTransGen (e.after c).graph.Reads q p := fun q =>
    mem_affectedBy hconsistent.symmetric
  have hcells : ∀ q, q ∈ ((e.after c).passEnd .dirty).computed ↔
      ((e.after c).workbook.cell? q).isSome = true ∧ q ∈ (e.after c).graph.affectedBy p := by
    intro q
    rw [mem_computed_passEnd hconsistent hread (by simp), haffected, ← hdirty]
    rfl
  obtain ⟨-, hpassed⟩ := passed_recompute hconsistent hread .dirty
  constructor
  case computes => exact computes_of_mem hconsistent hread rfl hcells
  case apart =>
    intro q hq
    have hnot : q ∉ ((e.after c).passEnd .dirty).computed := fun hc => hq ((hcells q).mp hc).2
    exact (hpassed.cell_eq hnot).trans (hcell q fun hway => hq ((haffected q).mpr hway))
  case within =>
    intro report hreport region hregion q hq
    cases hreport
    have hregion : region ∈ Region.ofCells ((e.after c).readAllLoaded.changes.toList ++
        ((e.after c).passEnd .dirty).changed) := hregion
    rw [readAllLoaded_eq_self hread] at hregion
    rcases List.mem_append.mp (Region.covered_ofCells.mp ⟨region, hregion, hq⟩) with hmem | hmem
    · rw [hchanges q (Std.TreeSet.mem_toList.mp hmem)]
      exact ReflTransGen.refl
    · exact ((hcells q).mp (hpassed.sound.valid.recorded q hmem).1).2

/-- **Errors and changes are contained.** In a reachable engine that has just recalculated all dirty cells,
and does so only on demand, a cell in the grid is written to, and stored before or after that. Then the next
recalculation computes the stored cells that depend on the cell in the graph after the edit, each of them
once. Every other cell keeps what it was, and no change is reported elsewhere. -/
theorem Reachable.containsEdit {library : Library} {e : Engine} (h : Reachable library e)
    (hmanual : e.settings.autoRecalculate = false) {sheet : SheetId} {a : Address} {c : Call}
    (hc : c.WritesTo sheet a) (hin : a.isWithin e.settings.columns e.settings.rows = true)
    (hstored : ((e.after (.recalculate .dirty)).workbook.cell? (.ofAddress sheet a)).isSome = true ∨
      (((e.after (.recalculate .dirty)).after c).workbook.cell? (.ofAddress sheet a)).isSome = true) :
    (e.after (.recalculate .dirty)).ContainsEdit c (.ofAddress sheet a) := by
  have hsettings : (e.after (.recalculate .dirty)).settings = e.settings :=
    (settings_recompute h.consistent .dirty).1
  have hrested : (e.after (.recalculate .dirty)).Rested :=
    ⟨clean_recompute h.consistent (by simp), (readAllLoaded_spec h.consistent).2.2,
      fun _ => Std.TreeSet.not_mem_emptyc⟩
  rw [← hsettings] at hmanual hin
  exact containsEdit_of_editedAt (editedAt_after (h.call _).consistent hrested hmanual hc hin hstored)

/-- The cell `B1` now reads `C1`, which makes the cycle longer. -/
theorem containsEdit_ringWithReader :
    Reachable .standard ((start {} .standard).run ringWithReader) ∧
      ((start {} .standard).run ringWithReader).settings.autoRecalculate = false ∧
      (Call.setFormula firstSheet (.plain 2 1) "=C1+D1").WritesTo firstSheet (.plain 2 1) ∧
      (.plain 2 1 : Address).isWithin ((start {} .standard).run ringWithReader).settings.columns
        ((start {} .standard).run ringWithReader).settings.rows = true ∧
      ((((start {} .standard).run ringWithReader).after (.recalculate .dirty)).workbook.cell?
        (.ofAddress firstSheet (.plain 2 1))).isSome = true ∧
      (((start {} .standard).run ringWithReader).after (.recalculate .dirty)).ContainsEdit
        (.setFormula firstSheet (.plain 2 1) "=C1+D1") (.ofAddress firstSheet (.plain 2 1)) := by
  have hmanual : ((start {} .standard).run ringWithReader).settings.autoRecalculate = false := by
    decide +kernel
  have hin : (.plain 2 1 : Address).isWithin ((start {} .standard).run ringWithReader).settings.columns
      ((start {} .standard).run ringWithReader).settings.rows = true := by decide +kernel
  have hstored : ((((start {} .standard).run ringWithReader).after (.recalculate .dirty)).workbook.cell?
      (.ofAddress firstSheet (.plain 2 1))).isSome = true := by decide +kernel
  exact ⟨reachable_ringWithReader, hmanual, .setFormula _, hin, hstored,
    Reachable.containsEdit reachable_ringWithReader hmanual (.setFormula _) hin (Or.inl hstored)⟩

end Engine

end Spreadsheet
