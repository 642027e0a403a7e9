import Mathlib.Data.Finset.Card
import Spreadsheet.Proofs.Computing

/-!
# Due: the value that a cell should have

On a cycle a circular error is due, and elsewhere what is computed from the values that are read
(`Engine.IsDue`). Where cycles share cells this is not what a pass makes of them, and not even the same for
every pass. So it is asked of the cells only that neither lie on such cycles nor read them, directly or
through others (`DependencyGraph.Untangled`): `Engine.Due` says that each of these that is not stale has
the value that is due.

Two things follow from the edges of the graph, along which one can go back to cells that read nothing or
lie on cycles (`induction_along_reads`):

* `matches_of_due` — the values that are due are determined by what the cells hold. So two engines with the
  same cells (`SameContents`) have the same values where they have those that are due;
* `due_of_change` — an edit keeps that the values are due.

Off all cycles the value that is due can be asked of tangled cells too (`Engine.DueOffCycles`). Edits keep
this as well, but of the passes only those that compute the readers of what they compute.

All of this is up to errors that count as the same. What an edit has to leave as it was depends on which
errors those are (`Faithful`).
-/

namespace Spreadsheet

open DependencyGraph Relation

namespace DependencyGraph

/-- Neither the cell nor any that its formula reads, directly or through others, lies on a cycle that
shares a cell with another one. -/
def Untangled (g : DependencyGraph) (p : Position) : Prop :=
  ∀ q, ReflTransGen g.Reads p q → g.OnCycle q → g.OnRing q

theorem Untangled.onRing {g : DependencyGraph} {p : Position} (h : g.Untangled p) (hcycle : g.OnCycle p) :
    g.OnRing p := h p ReflTransGen.refl hcycle

theorem Untangled.of_reads {g : DependencyGraph} {p q : Position} (h : g.Untangled p) (hreads : g.Reads p q) :
    g.Untangled q := fun r hr => h r (hr.head hreads)

/-- It depends on the edges alone. -/
theorem Untangled.congr {g g' : DependencyGraph} (heq : g'.Reads = g.Reads) {p : Position} (h : g.Untangled p) :
    g'.Untangled p := by
  unfold Untangled OnCycle at *
  rw [heq]
  intro q hway hcycle
  have hsingle := (h q hway hcycle).single
  unfold Joined at hsingle
  rw [← heq] at hsingle hcycle
  exact ⟨hcycle, hsingle⟩

end DependencyGraph

namespace Engine

variable {E : ErrorValue.Likeness}

/-- The value at a position is the one that is due, up to errors that count as the same. -/
structure IsDue (E : ErrorValue.Likeness) (e : Engine) (p : Position) : Prop where
  cyclic : e.graph.OnCycle p → (e.workbook.value p).Matches E (.error Cause.cycle.toError)
  computed : ¬e.graph.OnCycle p →
    (e.workbook.value p).Matches E (Pass.computedValue e.surroundings e.workbook p)

/-- Every untangled cell that is not stale has the value that is due. -/
def Due (E : ErrorValue.Likeness) (e : Engine) : Prop :=
  ∀ p, ¬e.Stale p → e.graph.Untangled p → e.IsDue E p

/-- Every cell off all cycles that is not stale has the value that is computed for it, whatever it reads. -/
def DueOffCycles (E : ErrorValue.Likeness) (e : Engine) : Prop :=
  ∀ p, ¬e.Stale p → ¬e.graph.OnCycle p →
    (e.workbook.value p).Matches E (Pass.computedValue e.surroundings e.workbook p)

/-! ### Along the edges -/

open Classical in
/-- The stored cells that a formula reads, directly or through others, and its own cell. -/
noncomputable def sourcesOf (e : Engine) (p : Position) : Finset Position :=
  e.workbook.positions.toFinset.filter fun q => ReflTransGen e.graph.Reads p q

open Classical in
theorem mem_sourcesOf {e : Engine} (h : e.Consistent) {p q : Position} :
    q ∈ e.sourcesOf p ↔ (e.workbook.cell? q).isSome = true ∧ ReflTransGen e.graph.Reads p q := by
  unfold sourcesOf
  rw [Finset.mem_filter, List.mem_toFinset, Workbook.mem_positions h.wellFormed]

/-- **Induction along the edges of the graph**, which ends at cycles: what a formula on no cycle reads has
fewer sources. -/
theorem induction_along_reads {e : Engine} (h : e.Consistent) {P : Position → Prop}
    (step : ∀ p, (¬e.graph.OnCycle p → ∀ q, e.graph.Reads p q → P q) → P p) (p : Position) : P p := by
  induction p using (measure fun p => (e.sourcesOf p).card).wf.induction with
  | _ p ih =>
    refine step p fun hcycle q hreads => ih q (Finset.card_lt_card ?_)
    refine Finset.ssubset_iff_subset_ne.mpr ⟨fun r hr => ?_, fun heq => ?_⟩
    · obtain ⟨hstored, hway⟩ := (mem_sourcesOf h).mp hr
      exact (mem_sourcesOf h).mpr ⟨hstored, hway.head hreads⟩
    · have hp : p ∈ e.sourcesOf p := by
        refine (mem_sourcesOf h).mpr ⟨?_, ReflTransGen.refl⟩
        exact isSome_of_wouldRead ((reads_iff_wouldRead (h.linked p)).mp hreads)
      rw [← heq] at hp
      exact hcycle (TransGen.head' hreads ((mem_sourcesOf h).mp hp).2)

/-! ### Engines with the same cells -/

/-- Two engines have the same cells: they hold the same up to link errors that count as the same, and
references to them mean the same. -/
structure SameContents (E : ErrorValue.Likeness) (e e' : Engine) : Prop where
  locale_eq : e'.settings.locale = e.settings.locale
  library_eq : e'.library = e.library
  scope_eq : e'.scope = e.scope
  obscured_eq : e'.workbook.isObscured = e.workbook.isObscured
  content : ∀ p, Option.Rel (CellContent.Matches E) (e.workbook.content? p) (e'.workbook.content? p)
  labels : ∀ p a b, E.r a b → E.r (e.context.propagated a p) (e'.context.propagated b p)

namespace SameContents

variable {e e' : Engine}

/-- In engines with the same cells the graphs have the same edges. -/
theorem reads_iff (h : SameContents E e e') {p : Position} (hp : e.LinkedAt p) (hp' : e'.LinkedAt p)
    (q : Position) : e'.graph.Reads p q ↔ e.graph.Reads p q := by
  have hlink : e'.linkAt p = e.linkAt p := by
    unfold linkAt
    rw [Workbook.tree?_of_rel (h.content p), h.scope_eq]
  rw [reads_iff_wouldRead hp, reads_iff_wouldRead hp']
  unfold WouldRead
  rw [hlink]

theorem reads_eq (h : SameContents E e e') (hlinked : ∀ p, e.LinkedAt p) (hlinked' : ∀ p, e'.LinkedAt p) :
    e'.graph.Reads = e.graph.Reads := by
  funext p q
  exact propext (h.reads_iff (hlinked p) (hlinked' p) q)

/-- The same is computed for a cell in both, if the values match that its formula reads, and, for a
formula whose text has not been read, its own values. -/
theorem computedValue_matches (h : SameContents E e e') {p : Position} (hp : e.LinkedAt p)
    (hunread : ∀ f, e.workbook.content? p = some (.formula f) → f.staticError? = none → f.tree? = none →
      (e.workbook.value p).Matches E (e'.workbook.value p))
    (hreads : ∀ q, e.graph.Reads p q → (e.workbook.value q).Matches E (e'.workbook.value q)) :
    (Pass.computedValue e.surroundings e.workbook p).Matches E
      (Pass.computedValue e'.surroundings e'.workbook p) := by
  refine Pass.computedValue_matches (h.content p) hunread fun x hstatic hx => evaluate_matches ?_
  refine matchOn_of_linked hp hx ((staticKind?_eq_linkKind? hx).symm.trans hstatic) h.locale_eq h.library_eq ?_ ?_
  · intro entry _ a ha
    rw [h.scope_eq]
    exact ha
  · exact fun q hq => ⟨(congrFun h.obscured_eq q).symm, hreads q hq, h.labels q⟩

/-- **Values that are due are determined by what the cells hold**, step by step along the edges: if they
match where a formula reads, they match at its cell. -/
theorem matches_of_due (h : SameContents E e e') (hlinked : ∀ p, e.LinkedAt p) (hlinked' : ∀ p, e'.LinkedAt p)
    {p : Position} (hdue : e.IsDue E p) (hdue' : e'.IsDue E p)
    (hunread : ∀ f, e.workbook.content? p = some (.formula f) → f.staticError? = none → f.tree? = none →
      (e.workbook.value p).Matches E (e'.workbook.value p))
    (hreads : ¬e.graph.OnCycle p → ∀ q, e.graph.Reads p q →
      (e.workbook.value q).Matches E (e'.workbook.value q)) :
    (e.workbook.value p).Matches E (e'.workbook.value p) := by
  have hiff : e'.graph.OnCycle p ↔ e.graph.OnCycle p := by
    unfold OnCycle
    rw [h.reads_eq hlinked hlinked']
  by_cases hcycle : e.graph.OnCycle p
  · exact (hdue.cyclic hcycle).trans (hdue'.cyclic (hiff.mpr hcycle)).symm
  · refine (hdue.computed hcycle).trans (Value.Matches.trans ?_ (hdue'.computed fun h => hcycle (hiff.mp h)).symm)
    exact h.computedValue_matches (hlinked p) hunread (hreads hcycle)

end SameContents

/-! ### Edits -/

section Change

variable {image : Position → Option Position} {e e' : Engine}

/-- A change after which the cells that are not dirty hold what they held, up to link errors that count as
the same, and reading errors in the same cell gives errors that count as the same. -/
structure Faithful (E : ErrorValue.Likeness) (image : Position → Option Position) (e e' : Engine) : Prop
    extends Change image e e' where
  content : ∀ p', (e'.workbook.cell? p').isSome = true → p' ∉ e'.dirty → ∃ p, image p = some p' ∧
    Alike e p e' p' ∧ Option.Rel (CellContent.Matches E) (e.workbook.content? p) (e'.workbook.content? p')
  labels : ∀ p' q, p' ∉ e'.dirty → e'.graph.Reads p' q → ∀ a b, E.r a b →
    E.r (e.context.propagated a q) (e'.context.propagated b q)

/-- Every change is faithful up to the kinds of errors. -/
theorem Change.faithful (h : Change image e e') (he : e.Consistent) (he' : e'.Consistent) :
    Faithful ErrorValue.sameKind image e e' where
  toChange := h
  content := by
    intro p' hstored hp'
    obtain ⟨p, himage, ha⟩ := h.source p' hstored hp'
    refine ⟨p, himage, ha, Workbook.rel_content?_of_core ha.core_eq.symm ?_⟩
    rw [(he.linked p).kind_eq, (he'.linked p').kind_eq, ha.linkAt_eq]
  labels := fun _ q _ _ a b _ => EvaluationContext.sameKind_propagated _ _ a b q q

/-- What is untangled after an edit was so before it. -/
theorem Change.untangled_of_after (h : Change image e e') (he : e.Consistent) (he' : e'.Consistent)
    {p p' : Position} (himage : image p = some p') (ha : Alike e p e' p') (hp' : ¬e'.Stale p')
    (huntangled : e'.graph.Untangled p') : e.graph.Untangled p := by
  intro q hway hcycle
  -- What lies on a cycle is in place, the cell itself included.
  obtain ⟨hway', hq, himage', haq⟩ : ReflTransGen e'.graph.Reads p' q ∧ ¬e'.Stale q ∧
      image q = some q ∧ Alike e q e' q := by
    rcases reflTransGen_iff_eq_or_transGen.mp hway with rfl | hway
    · obtain ⟨-, -, hself, -⟩ := h.transGen_of_before he he' ha hp' hcycle
      obtain rfl : p' = q := Option.some.inj (himage.symm.trans hself)
      exact ⟨ReflTransGen.refl, hp', hself, ha⟩
    · obtain ⟨hway', hrest⟩ := h.transGen_of_before he he' ha hp' hway
      exact ⟨hway'.to_reflTransGen, hrest⟩
  exact h.onRing_of_after he he' hq (huntangled q hway' (onCycle_of_alike h he he' himage' haq hq hcycle))

/-- A cell off all cycles has what is computed for it after an edit, if it had so before. -/
theorem Faithful.matches_computedValue (h : Faithful E image e e') (he : e.Consistent) (he' : e'.Consistent)
    (hroomy : e.settings.IsRoomy) {p' : Position} (hp' : ¬e'.Stale p') (hcycle' : ¬e'.graph.OnCycle p')
    (hbefore : ∀ p, image p = some p' → Alike e p e' p' → ¬e.graph.OnCycle p →
      (e.workbook.value p).Matches E (Pass.computedValue e.surroundings e.workbook p)) :
    (e'.workbook.value p').Matches E (Pass.computedValue e'.surroundings e'.workbook p') := by
  by_cases hstored : (e'.workbook.cell? p').isSome = true
  case neg =>
    have hnone : e'.workbook.cell? p' = none := by simpa using hstored
    unfold Pass.computedValue
    rw [Workbook.value_eq, hnone]
    exact Value.Matches.refl _
  have hclean : p' ∉ e'.dirty := fun hd => hp' (stale_of_mem hd)
  obtain ⟨p, himage, ha, hcontent⟩ := h.content p' hstored hclean
  have hp := hbefore p himage ha fun hcycle =>
    hcycle' (onCycle_of_alike h.toChange he he' himage ha hp' hcycle)
  rw [ha.value_eq]
  refine hp.trans (Pass.computedValue_matches hcontent
    (fun _ _ _ _ => Value.Matches.of_eq ha.value_eq.symm) fun x hstatic hx => ?_)
  rw [ha.sheet_eq]
  exact evaluate_matches (h.matchOn he he' hroomy ha hp' hx hstatic fun q hq => h.labels p' q hclean hq)

/-- **An edit keeps that values are due**, up to the errors for which it is faithful, on a grid with room. -/
theorem due_of_change (h : Faithful E image e e') (he : e.Consistent) (he' : e'.Consistent)
    (hroomy : e.settings.IsRoomy) (hdue : e.Due E) : e'.Due E := by
  have hbefore : ∀ p p', image p = some p' → Alike e p e' p' → ¬e'.Stale p' → e'.graph.Untangled p' →
      e.IsDue E p := fun p p' himage ha hp' huntangled =>
    hdue p (not_stale_of_alike h.toChange he he' ha hp')
      (h.untangled_of_after he he' himage ha hp' huntangled)
  intro p' hp' huntangled
  constructor
  · intro hcycle'
    obtain ⟨himage, ha⟩ := h.inPlace_of_onCycle hp' hcycle'
    rw [ha.value_eq]
    exact (hbefore p' p' himage ha hp' huntangled).cyclic (h.transGen_of_after he he' ha hp' hcycle').1
  · intro hcycle'
    exact h.matches_computedValue he he' hroomy hp' hcycle' fun p himage ha hcycle =>
      (hbefore p p' himage ha hp' huntangled).computed hcycle

/-- **An edit keeps that values off all cycles are due**, up to the errors for which it is faithful, on a
grid with room. -/
theorem dueOffCycles_of_change (h : Faithful E image e e') (he : e.Consistent) (he' : e'.Consistent)
    (hroomy : e.settings.IsRoomy) (hdue : e.DueOffCycles E) : e'.DueOffCycles E := fun _ hp' hcycle' =>
  h.matches_computedValue he he' hroomy hp' hcycle' fun p _ ha hcycle =>
    hdue p (not_stale_of_alike h.toChange he he' ha hp') hcycle

/-- Linking other formulas again does not change a cell. -/
theorem cell?_relinkAll (e : Engine) {ps : List Position} {q : Position} (hq : q ∉ ps) :
    (e.relinkAll ps).workbook.cell? q = e.workbook.cell? q := by
  induction ps generalizing e with
  | nil => rfl
  | cons p ps ih =>
    rw [List.mem_cons, not_or] at hq
    show ((e.relink p).relinkAll ps).workbook.cell? q = _
    rw [ih (e.relink p) hq.2, (link_relink_of_ne e hq.1).2]

section Linked

variable {e₁ : Engine} {ps seeds : List Position}

/-- A sheet keeps its name when an edit leaves the names of the sheets alone and a clean formula reads from it. -/
theorem Edit.sheetName_eq (h : Edit image e e₁ ps seeds)
    (hnames : ∀ id, e.workbook.contains id = true → e₁.workbook.contains id = true →
      (e₁.workbook.sheet? id).map Sheet.name = (e.workbook.sheet? id).map Sheet.name) {p' q : Position}
    (hp' : p' ∉ ((e₁.relinkAll ps).markDirty seeds).dirty)
    (hreads : ((e₁.relinkAll ps).markDirty seeds).graph.Reads p' q) :
    (((e₁.relinkAll ps).markDirty seeds).workbook.sheet? q.sheet).map Sheet.name =
      (e.workbook.sheet? q.sheet).map Sheet.name := by
  -- The sheet of the cell that is read was there before the edit, and is there after it.
  have hwould := h.reads_iff.mp hreads
  obtain ⟨hd, hs⟩ := h.clean_of_after (isSome_of_wouldRead hwould) hp'
  obtain ⟨p, -, ha, -⟩ := h.source p' (isSome_of_wouldRead hwould) hd hs
  have hwould₀ : e.WouldRead p q := by
    unfold WouldRead at hwould ⊢
    rw [ha.linkAt_eq] at hwould
    exact hwould
  rw [(h.finished.2.frame.trans (upToLinks_relinkAll e₁ ps).frame).sheetName_eq]
  exact hnames q.sheet (contains_of_wouldRead hwould₀) (contains_of_wouldRead hwould)

/-- **An edit is faithful whatever errors count as the same**, if the formulas that it links again are dirty
afterwards, and the sheets keep their names. -/
theorem Edit.faithful (h : Edit image e e₁ ps seeds) (hps : ∀ p ∈ ps, p ∈ e₁.dirty ∨ p ∈ seeds)
    (hnames : ∀ id, e.workbook.contains id = true → e₁.workbook.contains id = true →
      (e₁.workbook.sheet? id).map Sheet.name = (e.workbook.sheet? id).map Sheet.name) :
    Faithful E image e ((e₁.relinkAll ps).markDirty seeds) := by
  refine { h.change with content := fun p' hstored hp' => ?_, labels := fun p' q hp' hreads a b hab => ?_ }
  · rw [h.isSome_after] at hstored
    obtain ⟨hd, hs⟩ := h.clean_of_after hstored hp'
    obtain ⟨p, himage, ha, hcontent⟩ := h.source p' hstored hd hs
    refine ⟨p, himage, h.alike_after ha, ?_⟩
    rw [h.finished.2.content?_eq]
    unfold Workbook.content? at hcontent ⊢
    rw [cell?_relinkAll e₁ fun hmem => (hps p' hmem).elim hd hs, hcontent]
    exact Workbook.rel_content? _ p
  · show E.r (a.propagated ((e.workbook.sheet? q.sheet).map Sheet.name) q.col q.row)
      (b.propagated ((((e₁.relinkAll ps).markDirty seeds).workbook.sheet? q.sheet).map Sheet.name) q.col q.row)
    rw [h.sheetName_eq hnames hp' hreads]
    exact E.propagated _ _ _ hab

end Linked

end Change

end Engine

end Spreadsheet
