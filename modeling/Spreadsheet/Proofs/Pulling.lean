import Spreadsheet.Proofs.Counting

/-!
# Pulling: what a recalculation of one cell touches

A recalculation of one cell marks the cell and the cells that lie on a cycle with it, and then takes up the
cell alone. What it reads is taken up in turn as far as it is dirty or marked. That this reaches all that it
has to, and nothing else, comes from three facts:

* what is taken up is read from the cell, directly or through others (`reads_of_computed`);
* the dirty cells are closed under readers, so on the way from the cell to a dirty one all cells are dirty
  (`computed_of_reads`);
* the marked cells are computed (`computed_of_marked`), since the way to each of them is marked.

The main result is `Reachable.pulls`.
-/

namespace Spreadsheet

open Grid DependencyGraph Relation

namespace Engine

/-- What a recalculation of one cell has to compute: the cell, the cells on a cycle with it, and the dirty
cells that it reads, directly or through others. -/
def pulledBy (e : Engine) (k : Position) : Set Position :=
  {q | q = k ∨ e.graph.Joined k q ∨ (q ∈ e.dirty ∧ TransGen e.graph.Reads k q)}

/-- A recalculation of one cell ends, computes some cells, each of them once, and leaves the others alone. -/
structure TouchesOnly (e : Engine) (k : Position) (cells : Set Position) : Prop where
  computes : e.Computes (.cell k) cells
  /-- Every other cell is as it was, and dirty exactly if it was so. -/
  apart : ∀ q, q ∉ cells →
    (e.after (.recalculate (.cell k))).workbook.cell? q = e.workbook.cell? q ∧
      (q ∈ (e.after (.recalculate (.cell k))).dirty ↔ q ∈ e.dirty)
  /-- Settings, names and references are as they were. -/
  rest_eq : e.after (.recalculate (.cell k)) = { e with
    workbook := (e.after (.recalculate (.cell k))).workbook
    dirty := (e.after (.recalculate (.cell k))).dirty
    changes := {}
    mailbox := (e.after (.recalculate (.cell k))).mailbox }

/-- After a recalculation of one cell neither the cell nor any that it reads, directly or through others, is
dirty, or marked as such. -/
def Freshens (e : Engine) (k : Position) : Prop :=
  ∀ q, ReflTransGen e.graph.Reads k q → q ∉ (e.after (.recalculate (.cell k))).dirty ∧
    ∀ c, (e.after (.recalculate (.cell k))).workbook.cell? q = some c → c.flags.dirty = false

/-! ### Addresses -/

section Locate

variable {e : Engine} {sheet : SheetId} {a : Address}

theorem locate_of_contains (hsheet : e.workbook.contains sheet = true)
    (hin : a.isWithin e.settings.columns e.settings.rows = true) :
    e.locate sheet a = .ok (.ofAddress sheet a) := by
  obtain ⟨s, hs⟩ := Option.isSome_iff_exists.mp hsheet
  unfold locate Workbook.get
  rw [hs]
  exact if_pos hin

theorem eq_ofAddress_of_locate {p : Position} (h : e.locate sheet a = .ok p) : p = .ofAddress sheet a := by
  unfold locate at h
  split at h
  · cases h
  · split at h
    · cases h
      rfl
    · cases h

/-- An address leads to the same position as long as the sheets are the same ones. -/
theorem locate_of_sameFrame {e e' : Engine} {sheet : SheetId} {a : Address} {p : Position}
    (hlocate : e.locate sheet a = .ok p) (hcolumns : e'.settings.columns = e.settings.columns)
    (hrows : e'.settings.rows = e.settings.rows) (hframe : e'.workbook.SameFrame e.workbook) : e'.locate sheet a = .ok p := by
  have hsheet := contains_of_locate hlocate
  unfold locate at hlocate
  split at hlocate
  · cases hlocate
  · split at hlocate
    · next hwithin =>
      cases hlocate
      rw [← hcolumns, ← hrows] at hwithin
      exact locate_of_contains ((hframe.contains_eq sheet).trans hsheet) hwithin
    · cases hlocate

theorem locate_of_not_contains (hsheet : e.workbook.contains sheet = false) :
    e.locate sheet a = .error (.staleSheet sheet) := by
  have hs : e.workbook.sheet? sheet = none := by
    unfold Workbook.contains at hsheet
    simpa using hsheet
  unfold locate Workbook.get
  rw [hs]

end Locate

/-- A recalculation of a cell in the grid is not refused. -/
theorem recalculate_cell {e : Engine} {k : Position} (hsheet : e.workbook.contains k.sheet = true)
    (hin : k.address.isWithin e.settings.columns e.settings.rows = true) :
    e.recalculate (.cell k) = ⟨(e.recompute (.cell k)).1, .ok (e.recompute (.cell k)).2⟩ := by
  show e.perform ((e.locate k.sheet k.address).map fun _ => ()) (fun _ => e.recompute (.cell k)) = _
  rw [locate_of_contains hsheet hin]
  rfl

theorem after_recalculate_cell {e : Engine} {k : Position} (hsheet : e.workbook.contains k.sheet = true)
    (hin : k.address.isWithin e.settings.columns e.settings.rows = true) :
    e.after (.recalculate (.cell k)) = (e.recompute (.cell k)).1 :=
  congrArg Reply.engine (recalculate_cell hsheet hin)

section Consistent

variable {e : Engine} (h : e.Consistent) (hunread : ∀ p, p ∉ e.unread) {k q : Position}
include h hunread

/-- A cell that was dirty or marked and is not dirty any more was computed. -/
theorem computed_of_clean (hq : q ∈ (e.prepared (.cell k)).dirty) (hclean : q ∉ (e.recompute (.cell k)).1.dirty) :
    q ∈ (e.passEnd (.cell k)).computed := by
  obtain ⟨-, hpassed⟩ := passed_recompute h hunread (.cell k)
  by_contra hnot
  exact hclean ((hpassed.mem_dirty q).mpr ⟨hq, hnot⟩)

/-- The stored cells that are marked along with a cell are computed. -/
theorem computed_of_marked (hq : q = k ∨ e.graph.Joined k q) (hstored : (e.workbook.cell? q).isSome = true) :
    q ∈ (e.passEnd (.cell k)).computed := by
  have hmark := (mem_marksOf_cell h).mpr hq
  have hm := markedBy_prepared e (.cell k)
  refine computed_of_clean h hunread ((hm.mem_dirty q).mpr (Or.inr ⟨hmark, hstored⟩)) ?_
  refine clean_of_marked h ?_ hmark
  unfold recompute
  rw [readAllLoaded_eq_self hunread]

/-- **What is computed along with a cell is read from there.** -/
theorem reads_of_computed (hq : q ∈ (e.passEnd (.cell k)).computed) : ReflTransGen e.graph.Reads k q := by
  obtain ⟨hground, hsound⟩ := sound_passStart h hunread (.cell k)
  have hend : e.passEnd (.cell k) = Pass.compute e.surroundings (e.passStart (.cell k)) k := by
    unfold passStart passEnd
    rw [readAllLoaded_eq_self hunread, pass_eq]
    rfl
  rw [hend] at hq
  exact Pass.reads_of_compute hsound hground rfl rfl hq

/-- **Every dirty cell that is read from a computed one is computed.** All cells on the way are dirty, since
the dirty cells are closed under readers, and a computed cell reads none that is left dirty. -/
theorem computed_of_reads {a : Position} (ha : a ∈ (e.passEnd (.cell k)).computed)
    (hway : ReflTransGen e.graph.Reads a q) (hq : q ∈ e.dirty) : q ∈ (e.passEnd (.cell k)).computed := by
  obtain ⟨-, hpassed⟩ := passed_recompute h hunread (.cell k)
  have hm := markedBy_prepared e (.cell k)
  induction hway using ReflTransGen.head_induction_on with
  | refl => exact ha
  | @head a c hreads hrest ih =>
    have hc : c ∈ e.dirty := Passed.mem_dirty_of_stale h hunread ⟨q, hq, hrest⟩
    refine ih (computed_of_clean h hunread ((hm.mem_dirty c).mpr (Or.inl hc)) ?_)
    exact hpassed.clean_of_reads ha (hm.graph_eq ▸ hreads)

/-- **Which cells are computed along with a cell.** -/
theorem mem_computed_cell (hk : (e.workbook.cell? k).isSome = true) :
    q ∈ (e.passEnd (.cell k)).computed ↔ q ∈ e.pulledBy k := by
  obtain ⟨-, hpassed⟩ := passed_recompute h hunread (.cell k)
  have hm := markedBy_prepared e (.cell k)
  constructor
  · intro hq
    rcases (hm.mem_dirty q).mp (hpassed.sound.valid.computed_mem q hq) with hdirty | ⟨hmark, -⟩
    · rcases reflTransGen_iff_eq_or_transGen.mp (reads_of_computed h hunread hq) with heq | hway
      · exact Or.inl heq
      · exact Or.inr (Or.inr ⟨hdirty, hway⟩)
    · exact ((mem_marksOf_cell h).mp hmark).imp_right Or.inl
  · rintro (rfl | hjoined | ⟨hdirty, hway⟩)
    · exact computed_of_marked h hunread (Or.inl rfl) hk
    · obtain ⟨r, hreads, -⟩ := TransGen.head'_iff.mp hjoined.2
      exact computed_of_marked h hunread (Or.inr hjoined) (isSome_of_reads h hreads)
    · exact computed_of_reads h hunread (computed_of_marked h hunread (Or.inl rfl) hk) hway.to_reflTransGen
        hdirty

/-- Where nothing is stored, nothing is computed. -/
theorem not_mem_computed_cell (hk : (e.workbook.cell? k).isSome = false) :
    q ∉ (e.passEnd (.cell k)).computed := by
  obtain ⟨-, hpassed⟩ := passed_recompute h hunread (.cell k)
  intro hq
  have hstored := (orderly_prepared h (.cell k)).stored q (hpassed.sound.valid.computed_mem q hq)
  rw [(markedBy_prepared e (.cell k)).isSome_cell?] at hstored
  rcases ReflTransGen.cases_head (reads_of_computed h hunread hq) with rfl | ⟨r, hreads, -⟩
  · rw [hk] at hstored
    cases hstored
  · rw [isSome_of_reads h hreads] at hk
    cases hk

/-- **A cell that is not computed is left alone**, marks included. -/
theorem apart_of_not_computed (hq : q ∉ (e.passEnd (.cell k)).computed) :
    (e.recompute (.cell k)).1.workbook.cell? q = e.workbook.cell? q ∧
      (q ∈ (e.recompute (.cell k)).1.dirty ↔ q ∈ e.dirty) := by
  obtain ⟨-, hpassed⟩ := passed_recompute h hunread (.cell k)
  have hm := markedBy_prepared e (.cell k)
  rw [hpassed.cell_eq hq, hpassed.mem_dirty, hm.mem_dirty]
  by_cases hmark : q ∈ e.marksOf (.cell k)
  · -- A marked cell that is not computed is not stored, so there is nothing to mark.
    have hnone : e.workbook.cell? q = none := by
      rw [← Option.not_isSome_iff_eq_none]
      exact fun hstored => hq (computed_of_marked h hunread ((mem_marksOf_cell h).mp hmark) hstored)
    rw [hm.cell_marked q hmark, hnone]
    exact ⟨rfl, by simp [hq]⟩
  · rw [hm.cell_unmarked q hmark]
    exact ⟨rfl, by simp [hq, hmark]⟩

/-- **Nothing that a computed cell reads is left dirty**, directly or through others. -/
theorem clean_of_reads_cell (hk : (e.workbook.cell? k).isSome = true) (hway : ReflTransGen e.graph.Reads k q) :
    q ∉ (e.recompute (.cell k)).1.dirty := by
  obtain ⟨-, hpassed⟩ := passed_recompute h hunread (.cell k)
  intro hq
  obtain ⟨-, hnot⟩ := (hpassed.mem_dirty q).mp hq
  have hdirty := (apart_of_not_computed h hunread hnot).2.mp hq
  exact hnot (computed_of_reads h hunread (computed_of_marked h hunread (Or.inl rfl) hk) hway hdirty)

theorem touchesOnly_of_mem (hsheet : e.workbook.contains k.sheet = true)
    (hin : k.address.isWithin e.settings.columns e.settings.rows = true) {cells : Set Position}
    (hcells : ∀ q, q ∈ (e.passEnd (.cell k)).computed ↔ q ∈ cells) : e.TouchesOnly k cells := by
  have hresult := congrArg Reply.result (recalculate_cell hsheet hin)
  refine ⟨computes_of_mem h hunread hresult hcells, fun q hq => ?_, ?_⟩
  · rw [after_recalculate_cell hsheet hin]
    exact apart_of_not_computed h hunread fun hc => hq ((hcells q).mp hc)
  · rw [after_recalculate_cell hsheet hin]
    unfold recompute
    rw [readAllLoaded_eq_self hunread]

end Consistent

/-- **A recalculation of one cell touches exactly what it must.** In a reachable engine that has read all
formulas, it ends, and if the cell is stored it computes this cell, the cells on a cycle with it and the dirty
cells that it reads, directly or through others, each of them once. Then none of what the cell reads is dirty
any more, and all other cells are as they were. If the cell is not stored nothing is computed, and where the
sheet is gone the call is refused. -/
theorem Reachable.pulls {library : Library} {e : Engine} (h : Reachable library e)
    (hunread : ∀ p, p ∉ e.unread) {k : Position}
    (hin : k.address.isWithin e.settings.columns e.settings.rows = true) :
    ((e.workbook.cell? k).isSome = true → e.TouchesOnly k (e.pulledBy k) ∧ e.Freshens k) ∧
      ((e.workbook.cell? k).isSome = false → e.workbook.contains k.sheet = true → e.TouchesOnly k ∅) ∧
      (e.workbook.contains k.sheet = false →
        (e.recalculate (.cell k)).result = .error (.staleSheet k.sheet) ∧
          e.after (.recalculate (.cell k)) = e) := by
  refine ⟨fun hk => ?_, fun hk hsheet => ?_, fun hsheet => ?_⟩
  · have hsheet := Workbook.contains_of_cell? hk
    refine ⟨touchesOnly_of_mem h.consistent hunread hsheet hin fun q =>
      mem_computed_cell h.consistent hunread hk, fun q hway => ?_⟩
    have hclean : q ∉ (e.after (.recalculate (.cell k))).dirty := by
      rw [after_recalculate_cell hsheet hin]
      exact clean_of_reads_cell h.consistent hunread hk hway
    refine ⟨hclean, fun c hc => ?_⟩
    by_contra hflag
    exact hclean ((h.call _).consistent.flagged q c hc (by simpa using hflag))
  · exact touchesOnly_of_mem h.consistent hunread hsheet hin fun q =>
      iff_of_false (not_mem_computed_cell h.consistent hunread hk) (Set.notMem_empty q)
  · have hreply : e.recalculate (.cell k) = ⟨e, .error (.staleSheet k.sheet)⟩ := by
      show e.perform ((e.locate k.sheet k.address).map fun _ => ()) (fun _ => e.recompute (.cell k)) = _
      rw [locate_of_not_contains hsheet]
      rfl
    exact ⟨congrArg Reply.result hreply, congrArg Reply.engine hreply⟩

theorem pulls_ringWithReader :
    (Reachable .standard ((start {} .standard).run ringWithReader) ∧
        ∀ p, p ∉ ((start {} .standard).run ringWithReader).unread) ∧
      (⟨firstSheet, 1, 3⟩ : Position).address.isWithin ((start {} .standard).run ringWithReader).settings.columns
        ((start {} .standard).run ringWithReader).settings.rows = true ∧
      (((start {} .standard).run ringWithReader).workbook.cell? ⟨firstSheet, 1, 3⟩).isSome = true ∧
      ((start {} .standard).run ringWithReader).TouchesOnly ⟨firstSheet, 1, 3⟩
        (((start {} .standard).run ringWithReader).pulledBy ⟨firstSheet, 1, 3⟩) ∧
      ((start {} .standard).run ringWithReader).Freshens ⟨firstSheet, 1, 3⟩ := by
  have hin : (⟨firstSheet, 1, 3⟩ : Position).address.isWithin
      ((start {} .standard).run ringWithReader).settings.columns
        ((start {} .standard).run ringWithReader).settings.rows = true := by decide +kernel
  have hstored : (((start {} .standard).run ringWithReader).workbook.cell? ⟨firstSheet, 1, 3⟩).isSome = true := by
    decide +kernel
  exact ⟨⟨reachable_ringWithReader, not_mem_unread_ringWithReader⟩, hin, hstored,
    (Reachable.pulls reachable_ringWithReader not_mem_unread_ringWithReader hin).1 hstored⟩

end Engine

end Spreadsheet
