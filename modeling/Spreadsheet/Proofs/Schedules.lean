import Spreadsheet.Proofs.Deferring
import Spreadsheet.Proofs.Entries
import Spreadsheet.Proofs.Finished
import Spreadsheet.Proofs.UpToDate

/-!
# Schedules: results do not depend on when passes are made

Passes enter nothing, so two engines that are given the same edits have the same entries in the end, whatever
passes were made between the edits. In a finished engine the values are due, and values that are due are
determined by the entries (`agrees_of_sameEntries`), where no cycles share cells. So the values are the same
(`agrees_of_schedules`). Without room on the grid they need not be (`not_agrees_heldMerge`).

No formula may be loaded: a loaded formula keeps the value it was saved with until it is read.
-/

namespace Spreadsheet

open Grid DependencyGraph

/-- A call that loads a cell. -/
def Call.Loads : Call → Prop
  | .loadCell _ _ _ => True
  | _ => False

namespace Engine

variable {e e' : Engine}

/-! ### Without loaded formulas -/

/-- No formula is listed to be read. -/
def NoneListed (e : Engine) : Prop := ∀ p, p ∉ e.unread

theorem NoneListed.of_eq (h : e.NoneListed) (heq : e'.unread = e.unread) : e'.NoneListed := by
  unfold NoneListed
  rw [heq]
  exact h

section Listed

variable (h : e.NoneListed)
include h

theorem noneListed_recompute (scope : PassScope) : (e.recompute scope).1.NoneListed := by
  unfold recompute
  rw [readAllLoaded_eq_self h]
  exact h

theorem noneListed_afterEdit : e.afterEdit.NoneListed := by
  unfold afterEdit
  split
  · exact noneListed_recompute h .dirty
  · exact h

theorem noneListed_linked (ps seeds : List Position) : ((e.relinkAll ps).markDirty seeds).NoneListed := by
  refine markDirty_keeps (fun e p he => ?_) ?_ seeds
  · exact he.of_eq (markedBy_markCell e p).unread_eq
  · exact h.of_eq (upToLinks_relinkAll e ps).unread_eq

omit h in
theorem isCellwise_noneListed : IsCellwise NoneListed where
  thinned h hthins := fun p hp => h p (hthins.listed p hp)
  relinked h ps seeds := noneListed_afterEdit (noneListed_linked h ps seeds)

theorem noneListed_take (p : Position) : (e.take p).NoneListed := isCellwise_noneListed.thinned h (thins_take e p)

theorem noneListed_putValue (p : Position) (v : Value) : (e.putValue p v).NoneListed := by
  unfold putValue
  split
  · exact isCellwise_noneListed.emptyCell h p
  · refine isCellwise_noneListed.marked ?_ [p]
    exact noneListed_take h p

theorem noneListed_putFormula (p : Position) (text : String) : (e.putFormula p text).NoneListed := by
  unfold putFormula
  refine isCellwise_noneListed.relinked ?_ [p] [p]
  exact noneListed_take h p

theorem noneListed_addSheet (name : String) : (e.addSheet name).engine.NoneListed := by
  refine perform_keeps h fun x _ => ?_
  dsimp only
  rw [relinkUnresolved_eq]
  refine isCellwise_noneListed.relinked ?_ _ _
  exact h

theorem noneListed_replaceFormula (p : Position) (text : String) : (e.replaceFormula p text).NoneListed :=
  fun q hq => h q (Std.TreeSet.mem_of_mem_erase hq)

theorem noneListed_shiftLines (id : SheetId) (d : LineEdit) (s : Sheet) : (e.shiftLines id d s).NoneListed := by
  rw [shiftLines_eq]
  refine isCellwise_noneListed.relinked (fun q hq => ?_) _ _
  obtain ⟨p, hp, -⟩ := (mem_imageOf _ _ _).mp hq
  refine foldl_keeps (P := NoneListed) (fun e entry _ he => noneListed_replaceFormula he entry.1 entry.2) ?_ p hp
  exact h

/-- **Only a call that loads a cell puts formulas on the list.** -/
theorem noneListed_after {c : Call} (hc : ¬c.Loads) : (e.after c).NoneListed := by
  cases c with
  | addSheet name =>
    rw [after_addSheet]
    exact noneListed_addSheet h name
  | removeSheet sheet => exact isCellwise_noneListed.removeSheet h sheet
  | renameSheet sheet name =>
    refine perform_keeps h fun x _ => ?_
    dsimp only
    split
    · exact h
    · refine isCellwise_noneListed.relinked (foldl_keeps (P := NoneListed) (fun e entry _ he => ?_) ?_) _ _
      · exact (noneListed_replaceFormula he entry.1 entry.2).of_eq (upToLinks_relink _ _).unread_eq
      · exact h
  | setFormula sheet a text =>
    refine perform_keeps h fun p _ => ?_
    dsimp only
    split
    · exact noneListed_putFormula h p text
    · exact noneListed_putValue h p _
  | setValue sheet a v => exact perform_keeps h fun p _ => noneListed_putValue h p v
  | clearCell sheet a => exact perform_keeps h fun p _ => isCellwise_noneListed.emptyCell h p
  | loadCell sheet a saved => exact absurd trivial hc
  | defineName name sheet rect => exact isCellwise_noneListed.defineName h name sheet rect
  | removeName name => exact isCellwise_noneListed.removeName h name
  | mergeCells sheet rect => exact isCellwise_noneListed.mergeCells h sheet rect
  | unmergeCells sheet rect => exact isCellwise_noneListed.unmergeCells h sheet rect
  | editLines sheet d => exact perform_keeps h fun s _ => noneListed_shiftLines h sheet d s
  | recalculate scope => exact perform_keeps h fun _ _ => noneListed_recompute h scope
  | evaluateCell sheet a => exact perform_keeps h fun p _ => noneListed_recompute h (.cell p)
  | buildDisplays => exact h
  | listen => exact h
  | unlisten => exact h
  | collect => exact h

end Listed

/-- An edit of lines strands no formula if none is listed. -/
theorem strands_of_noneListed (h : e.NoneListed) (c : Call) : e.strands c = false := by
  unfold strands
  split
  · split
    · rfl
    · exact List.any_eq_false.mpr fun p hp => absurd (Std.TreeSet.mem_toList.mp hp) (h p)
  · rfl

/-- Calls that load nothing leave no formula unread. -/
theorem defers_run_of_not_loads (h : e.Defers) (hlisted : e.NoneListed) (he : e.Consistent)
    (hcount : e.settings.IsCountable) {cs : List Call} (hcs : ∀ c ∈ cs, ¬c.Loads) : (e.run cs).Defers := by
  refine defers_run h he hcount ?_
  clear h he hcount
  induction cs generalizing e with
  | nil => rfl
  | cons c cs ih =>
    refine Bool.or_eq_false_iff.mpr ⟨strands_of_noneListed hlisted c, ih ?_ fun d hd => hcs d ?_⟩
    · exact noneListed_after hlisted (hcs c List.mem_cons_self)
    · exact List.mem_cons_of_mem c hd

/-! ### Engines with the same entries -/

/-- A formula that has been read holds what its text is read as. -/
theorem parsed_of_allRead (h : e.Consistent) (hread : e.AllRead) {p : Position} {c : Cell} {f : Formula}
    (hc : e.workbook.cell? p = some c) (hf : c.content = .formula f) :
    f.parsed = some (e.readFormula f.text) := by
  refine ((h.cells p c hc).formula f hf).resolve_left fun hnone => ?_
  have hunread : c.isUnread = false := by
    rcases hread p c hc with hreading | ⟨-, hnever⟩
    · exact (Prod.mk.inj hreading).1
    · exact hnever.elim
  unfold Cell.isUnread Cell.formula? Formula.isParsed at hunread
  rw [hf] at hunread
  simp [hnone] at hunread

/-- Where engines with the same entries have read everything, their cells hold the same. -/
theorem sameContents_of_sameEntries (h : e.SameEntries e') (he : e.Consistent) (he' : e'.Consistent)
    (hread : e.AllRead) (hread' : e'.AllRead) : SameContents ErrorValue.sameKind e e' where
  locale_eq := h.locale_eq.symm
  library_eq := h.library_eq.symm
  scope_eq := h.scope_eq.symm
  obscured_eq := h.workbook.sameFrame.isObscured_eq.symm
  labels := fun p a b _ => EvaluationContext.sameKind_propagated _ _ a b p p
  content := by
    intro p
    have hentry := h.workbook.entry_eq p
    unfold Workbook.content?
    cases hc : e.workbook.cell? p with
    | none =>
      rw [hc] at hentry
      rw [Option.map_eq_none_iff.mp hentry.symm]
      exact .none
    | some c =>
      rw [hc] at hentry
      obtain ⟨c', hc', heq⟩ := Option.map_eq_some_iff.mp hentry.symm
      rw [hc']
      refine .some ?_
      have hkind : e.linkAt p = e'.linkAt p → e.workbook.linkKind? p = e'.workbook.linkKind? p := fun hlink => by
        rw [(he.linked p).kind_eq, (he'.linked p).kind_eq, hlink]
      obtain ⟨content, value, flags⟩ := c
      obtain ⟨content', value', flags'⟩ := c'
      cases content with
      | constant v =>
        cases content' with
        | constant v' => exact Entry.constant.inj heq.symm
        | formula f' => cases heq
      | formula f =>
        cases content' with
        | constant v' => cases heq
        | formula f' =>
          have htext : f.text = f'.text := Entry.formula.inj heq.symm
          have hparsed : f.parsed = f'.parsed := by
            rw [parsed_of_allRead he hread hc rfl, parsed_of_allRead he' hread' hc' rfl, h.readFormula_eq, htext]
          refine ⟨htext, hparsed, ErrorValue.rel_sameKind.mpr ?_⟩
          rw [← Workbook.linkKind?_of_cell hc rfl, ← Workbook.linkKind?_of_cell hc' rfl]
          refine hkind ?_
          unfold linkAt Workbook.tree? Cell.tree? Cell.formula? Formula.tree?
          rw [hc, hc', h.scope_eq]
          dsimp only [Option.bind_some]
          rw [hparsed]

/-- **Values that are due are determined by the entries**, where no cells that read themselves share
cells with others. -/
theorem agrees_of_sameEntries (h : e.SameEntries e') (he : e.Consistent) (he' : e'.Consistent)
    (hread : e.AllRead) (hread' : e'.AllRead) (hclean : ∀ p, p ∉ e.dirty) (hclean' : ∀ p, p ∉ e'.dirty)
    (hdue : e.Due ErrorValue.sameKind) (hdue' : e'.Due ErrorValue.sameKind) (p : Position) :
    e.graph.Untangled p → (e.workbook.value p).Agrees (e'.workbook.value p) := by
  have hsame := sameContents_of_sameEntries h he he' hread hread'
  have hreads := hsame.reads_eq he.linked he'.linked
  induction p using induction_along_reads he with
  | step p ih =>
    intro huntangled
    refine Value.matches_sameKind.mp (hsame.matches_of_due he.linked he'.linked
      (hdue p (not_stale_of_clean hclean p) huntangled)
      (hdue' p (not_stale_of_clean hclean' p) (huntangled.congr hreads))
      (fun f hf hstatic htree => ?_) fun hcycle q hq =>
        Value.matches_sameKind.mpr (ih hcycle q hq (huntangled.of_reads hq)))
    obtain ⟨c, hc, hcontent⟩ := Option.map_eq_some_iff.mp hf
    have hparsed := parsed_of_allRead he hread hc hcontent
    unfold Formula.staticError? at hstatic
    unfold Formula.tree? at htree
    cases hr : e.readFormula f.text <;> simp [hparsed, hr] at hstatic htree

/-! ### Finished engines -/

/-- What is known of an engine that is finished, when nothing was loaded. -/
theorem finished_spec {settings : Settings} (hroomy : settings.IsRoomy) (library : Library) {cs : List Call}
    (hcs : ∀ c ∈ cs, ¬c.Loads) : (finished settings library cs).Consistent ∧ (finished settings library cs).AllRead ∧
      (∀ p, p ∉ (finished settings library cs).dirty) ∧ (finished settings library cs).Due ErrorValue.sameKind := by
  have hstart := consistent_start settings library
  have hrun := keeps_run hstart hroomy.isCountable cs
  have hdefers : ((start settings library).run cs).Defers :=
    defers_run_of_not_loads (fun p c hc => by cases hc) (fun p => Std.TreeSet.not_mem_emptyc) hstart
      hroomy.isCountable hcs
  exact ⟨consistent_finished hroomy.isCountable library cs, allRead_recompute hdefers .dirty,
    clean_recompute hrun.consistent (by simp), due_recompute hrun.consistent (hrun.settings_eq.symm ▸ hroomy)
      (due_run hroomy library (Or.inl rfl)) .dirty⟩

/-- **Results do not depend on when passes are made.** Two engines are given the same edits, with any passes
between them, and are finished by a pass over the dirty cells, on a grid with room. One may recalculate after
every edit and the other not. If no cell reads itself in the end, directly or through others, the same cells
are stored and have the same values, errors of the same kind. -/
theorem agrees_of_schedules {settings : Settings} (hroomy : settings.IsRoomy) (library : Library) (auto : Bool)
    {cs cs' : List Call} (hcs : ∀ c ∈ cs, ¬c.Loads) (hentries : cs.filter Call.isEntry = cs'.filter Call.isEntry)
    (hacyclic : ∀ p, ¬(finished settings library cs).graph.OnCycle p) (p : Position) :
    ((finished settings library cs).workbook.cell? p).isSome =
        ((finished { settings with autoRecalculate := auto } library cs').workbook.cell? p).isSome ∧
      ((finished settings library cs).workbook.value p).Agrees
        ((finished { settings with autoRecalculate := auto } library cs').workbook.value p) := by
  have hcs' : ∀ c ∈ cs', ¬c.Loads := by
    intro c hc hloads
    cases c with
    | loadCell sheet a saved =>
      have hmem : Call.loadCell sheet a saved ∈ cs'.filter Call.isEntry := List.mem_filter.mpr ⟨hc, rfl⟩
      rw [← hentries] at hmem
      exact hcs _ (List.mem_filter.mp hmem).1 trivial
    | _ => exact hloads
  have hsame : (finished settings library cs).SameEntries
      (finished { settings with autoRecalculate := auto } library cs') := by
    refine sameEntries_after ?_ (.recalculate .dirty)
    refine (sameEntries_run_filter _ cs).trans (SameEntries.trans ?_ (sameEntries_run_filter _ cs').symm)
    rw [hentries]
    refine sameEntries_run ?_ _
    exact ⟨rfl, rfl, rfl, .refl _⟩
  obtain ⟨hconsistent, hread, hclean, hdue⟩ := finished_spec hroomy library hcs
  have hroomy' : Settings.IsRoomy { settings with autoRecalculate := auto } := ⟨hroomy.1, hroomy.2⟩
  obtain ⟨hconsistent', hread', hclean', hdue'⟩ := finished_spec hroomy' library hcs'
  exact ⟨hsame.workbook.isSome_cell? p, agrees_of_sameEntries hsame hconsistent hconsistent' hread hread' hclean
    hclean' hdue hdue' p fun q _ hcycle => absurd hcycle (hacyclic q)⟩

/-- Edits with passes of all scopes between them. One is made while two formulas read each other, and one
while a formula reads a sheet that is not there. -/
def mixedPasses : List Call :=
  [.addSheet "S", .setFormula firstSheet (.plain 1 1) "=B1&T!A1", .evaluateCell firstSheet (.plain 1 1),
    .setFormula firstSheet (.plain 2 1) "=A1", .recalculate .full,
    .setValue firstSheet (.plain 2 1) (.boolean true), .addSheet "T", .recalculate (.cell ⟨firstSheet, 1, 1⟩),
    .setFormula ⟨1, 0⟩ (.plain 1 1) "=1/0", .editLines firstSheet ⟨.rows, .insertion, 1, 1⟩]

/-- Where one formula only reads anything, and not its own cell, no cell reads itself. -/
theorem not_onCycle_of_single {settings : Settings} (hcount : settings.IsCountable) {library : Library}
    {cs : List Call} {r : Position} (hall : ∀ p ∈ (finished settings library cs).workbook.positions,
      ∀ a ∈ (finished settings library cs).graph.precedentsOf p, p = r ∧ a.covers r = false) (p : Position) :
    ¬(finished settings library cs).graph.OnCycle p := by
  have hconsistent := consistent_finished hcount library cs
  have hreads : ∀ p q, (finished settings library cs).graph.Reads p q → p = r ∧ q ≠ r := by
    intro p q hpq
    have hp := (Workbook.mem_positions hconsistent.wellFormed).mpr (isSome_of_reads hconsistent hpq)
    obtain ⟨a, ha, hcovers⟩ := hpq
    obtain ⟨hpr, hnot⟩ := hall p hp a ha
    refine ⟨hpr, ?_⟩
    rintro rfl
    rw [hnot] at hcovers
    cases hcovers
  intro hcycle
  obtain ⟨q, hpq, hqp⟩ := Relation.TransGen.head'_iff.mp hcycle
  obtain ⟨rfl, hq⟩ := hreads p q hpq
  rcases Relation.ReflTransGen.cases_head hqp with heq | ⟨s, hqs, -⟩
  · exact hq heq
  · exact hq (hreads q s hqs).1

/-- The other engine recalculates after every edit, and the passes between the edits are left out. -/
theorem agrees_mixedPasses :
    Settings.IsRoomy {} ∧ (∀ c ∈ mixedPasses, ¬c.Loads) ∧
      mixedPasses.filter Call.isEntry = (mixedPasses.filter Call.isEntry).filter Call.isEntry ∧
      (∀ p, ¬(finished {} .standard mixedPasses).graph.OnCycle p) ∧
      ∀ p, ((finished {} .standard mixedPasses).workbook.cell? p).isSome =
          ((finished { autoRecalculate := true } .standard (mixedPasses.filter Call.isEntry)).workbook.cell? p).isSome ∧
        ((finished {} .standard mixedPasses).workbook.value p).Agrees
          ((finished { autoRecalculate := true } .standard (mixedPasses.filter Call.isEntry)).workbook.value p) := by
  have hroomy : Settings.IsRoomy {} := ⟨by decide, by decide⟩
  have hloads : ∀ c ∈ mixedPasses, ¬c.Loads := by simp [mixedPasses, Call.Loads]
  have hentries : mixedPasses.filter Call.isEntry = (mixedPasses.filter Call.isEntry).filter Call.isEntry := by
    rw [List.filter_filter]
    simp
  have hacyclic : ∀ p, ¬(finished {} .standard mixedPasses).graph.OnCycle p :=
    not_onCycle_of_single ⟨by decide, by decide⟩ (r := ⟨firstSheet, 2, 1⟩) (by decide +kernel)
  exact ⟨hroomy, hloads, hentries, hacyclic,
    agrees_of_schedules hroomy .standard true hloads hentries hacyclic⟩

/-! ### Grids without room -/

/-- **Without room on the grid results can depend on when passes are made.** The formula is computed by the
pass before the last edit, and not again; without that pass it is computed afterwards, when the cell that it
reads is hidden. -/
theorem not_agrees_heldMerge :
    (∀ c ∈ heldMerge, ¬c.Loads) ∧
      heldMerge.filter Call.isEntry = (heldMerge.filter Call.isEntry).filter Call.isEntry ∧
      (∀ p, ¬(finished (fullGrid .rows) .standard heldMerge).graph.OnCycle p) ∧
      ¬((finished (fullGrid .rows) .standard heldMerge).workbook.value ⟨firstSheet, 1, 3⟩).Agrees
        ((finished (fullGrid .rows) .standard (heldMerge.filter Call.isEntry)).workbook.value ⟨firstSheet, 1, 3⟩) := by
  have hboolean : ((finished (fullGrid .rows) .standard heldMerge).workbook.value ⟨firstSheet, 1, 3⟩).kindName =
      "boolean" := by decide +kernel
  have hnumber : ((finished (fullGrid .rows) .standard (heldMerge.filter Call.isEntry)).workbook.value
      ⟨firstSheet, 1, 3⟩).kindName = "number" := by decide +kernel
  refine ⟨by simp [heldMerge, Call.Loads], by rw [List.filter_filter]; simp,
    not_onCycle_of_single ⟨by decide, by decide⟩ (r := ⟨firstSheet, 1, 3⟩) (by decide +kernel), fun hagrees => ?_⟩
  have hkind := hagrees.kindName_eq
  rw [hboolean, hnumber] at hkind
  exact absurd hkind (by decide)

end Engine

end Spreadsheet
