import Mathlib.Data.Set.Card
import Spreadsheet.Proofs.Cycles
import Spreadsheet.Proofs.PassCounts

/-!
# Counting: which cells a recalculation computes

`Engine.Computes` says of a recalculation that its pass ends, that it computes the cells of a set, each of
them once, and no others, and that it reports their number. It holds of every scope with the cells that the
pass has computed (`computes_of_mem`), so for each scope it is left to say which cells these are.

A recalculation of all dirty cells computes what was dirty, and one of all cells what is stored
(`mem_computed_passEnd`). Whatever cycles there are, no cell is dirty or under evaluation afterwards, and the
circular errors that are reported are the cells that were finished with a mark (`Engine.Clears`). The main
result is `Reachable.computesOnce`.
-/

namespace Spreadsheet

open Grid DependencyGraph Relation

/-- A list without repetitions is as long as it has members. -/
theorem ncard_of_nodup {α : Type} {xs : List α} {s : Set α} (h : xs.Nodup) (hs : ∀ x, x ∈ xs ↔ x ∈ s) :
    s.ncard = xs.length := by
  classical
  have heq : s = xs.toFinset := Set.ext fun x => by simp [← hs]
  rw [heq, Set.ncard_coe_finset, List.toFinset_card_of_nodup h]

namespace Engine

/-- A recalculation ends, and it computes some cells, each of them once, and no others. -/
structure Computes (e : Engine) (scope : PassScope) (cells : Set Position) : Prop where
  /-- Its pass leads from its beginning to a state in which nothing is left on the stack. -/
  leads : Pass.Leads e.surroundings (e.passStart scope) (e.passEnd scope)
  ended : (e.passEnd scope).stack = []
  /-- No pass that begins there goes on forever. -/
  ends : ∀ run : ℕ → Pass, run 0 = e.passStart scope →
    ∃ n, ¬Pass.Next e.surroundings (run n) (run (n + 1))
  /-- The log of the pass has every cell that it finished, and has it once. -/
  logged : ∀ p, p ∈ (e.passEnd scope).computed ↔
    ∃ cyclic, Pass.Finishes e.surroundings (e.passStart scope) (e.passEnd scope) p cyclic
  nodup : (e.passEnd scope).computed.Nodup
  mem_computed : ∀ p, p ∈ (e.passEnd scope).computed ↔ p ∈ cells
  /-- It reports how many these are. -/
  reported : ∃ report, (e.recalculate scope).result = .ok report ∧ report.computed = cells.ncard

/-- What a recalculation leaves that computes every dirty cell, and which circular errors it reports. -/
structure Clears (e : Engine) (scope : PassScope) : Prop where
  /-- It counts the cells that were finished with a mark. -/
  reported : ∃ report, (e.recalculate scope).result = .ok report ∧
    report.cycles =
      {p | Pass.Finishes e.surroundings (e.passStart scope) (e.passEnd scope) p true}.ncard
  /-- Such a cell lies on a cycle, and becomes a circular error without being evaluated. -/
  marked : ∀ p, Pass.Finishes e.surroundings (e.passStart scope) (e.passEnd scope) p true →
    e.graph.OnCycle p ∧
      (e.after (.recalculate scope)).workbook.value p = .error Cause.cycle.toError
  /-- Every other one has the value that is computed for it. -/
  evaluated : ∀ p ∈ (e.passEnd scope).computed,
    ¬Pass.Finishes e.surroundings (e.passStart scope) (e.passEnd scope) p true →
      (e.after (.recalculate scope)).workbook.value p =
        Pass.computedValue e.surroundings (e.after (.recalculate scope)).workbook p
  /-- No cell is left dirty. -/
  clean : ∀ p, p ∉ (e.after (.recalculate scope)).dirty
  /-- No cell is left under evaluation, or with a mark that it is dirty. -/
  idle : ∀ p c, (e.after (.recalculate scope)).workbook.cell? p = some c →
    c.flags.evaluating = false ∧ c.flags.dirty = false

section Consistent

variable {e : Engine} (h : e.Consistent) (hunread : ∀ p, p ∉ e.unread)
include h hunread

/-- What a pass can rely on, and its invariant, at the beginning of a recalculation. -/
theorem sound_passStart (scope : PassScope) :
    Pass.Ground e.surroundings (e.prepared scope).workbook (e.prepared scope).dirty ∧
      Pass.Sound e.surroundings (e.prepared scope).workbook (e.prepared scope).dirty (e.passStart scope) := by
  have hground := ground_surroundings (orderly_prepared h scope) (linkedAt_prepared h scope)
  have hsound := sound_passState (orderly_prepared h scope).wellFormed e.dirty
  rw [surroundings_prepared] at hground hsound
  unfold passStart
  rw [readAllLoaded_eq_self hunread]
  exact ⟨hground, hsound⟩

/-- The pass of a recalculation leads to its end, and leaves what the recalculation leaves. -/
theorem passed_recompute (scope : PassScope) :
    Pass.Leads e.surroundings (e.passStart scope) (e.passEnd scope) ∧
      Passed (e.prepared scope) (e.passEnd scope) (e.recompute scope).1 := by
  have hread := readAllLoaded_eq_self hunread
  unfold passStart passEnd
  rw [hread]
  obtain ⟨hpassed, hleads, -⟩ := passed_pass h scope (e.recompute scope).1 (by
    unfold recompute
    rw [hread])
  exact ⟨hleads, hpassed⟩

theorem once_passEnd (scope : PassScope) : Pass.Once (e.passEnd scope) := by
  obtain ⟨hground, hsound⟩ := sound_passStart h hunread scope
  exact Pass.once_of_leads hsound hground (passed_recompute h hunread scope).1
    ⟨List.nodup_nil, List.Sublist.refl _⟩

/-- **Every recalculation ends and computes no cell twice**, whatever its scope. -/
theorem computes_of_mem {scope : PassScope} (hresult : (e.recalculate scope).result = .ok (e.recompute scope).2)
    {cells : Set Position} (hcells : ∀ p, p ∈ (e.passEnd scope).computed ↔ p ∈ cells) :
    e.Computes scope cells := by
  obtain ⟨hground, hsound⟩ := sound_passStart h hunread scope
  obtain ⟨hleads, hpassed⟩ := passed_recompute h hunread scope
  have hnodup := (once_passEnd h hunread scope).nodup
  exact
    { leads := hleads
      ended := hpassed.ended
      ends := fun run hrun => Pass.ends_of_sound hsound hground run hrun
      logged := fun p => (Pass.mem_log_iff hleads rfl rfl p).1
      nodup := hnodup
      mem_computed := hcells
      reported := ⟨_, hresult, (ncard_of_nodup hnodup hcells).symm⟩ }

/-- The scopes that cover all dirty cells compute what is dirty or marked. -/
theorem mem_computed_passEnd {scope : PassScope} (hscope : ∀ p, scope ≠ .cell p) (p : Position) :
    p ∈ (e.passEnd scope).computed ↔ p ∈ (e.prepared scope).dirty := by
  obtain ⟨-, hpassed⟩ := passed_recompute h hunread scope
  constructor
  · exact hpassed.sound.valid.computed_mem p
  · intro hp
    by_contra hnot
    exact clean_recompute h hscope p ((hpassed.mem_dirty p).mpr ⟨hp, hnot⟩)

/-- **A recalculation that covers all dirty cells leaves none**, and reports the circular errors that it has
made. -/
theorem clears_recalculate {scope : PassScope} (hscope : scope = .dirty ∨ scope = .full) :
    e.Clears scope := by
  have hwhole : ∀ p, scope ≠ .cell p := by
    rcases hscope with rfl | rfl <;> simp
  have hafter : e.after (.recalculate scope) = (e.recompute scope).1 := by
    rcases hscope with rfl | rfl <;> rfl
  have hresult : (e.recalculate scope).result = .ok (e.recompute scope).2 := by
    rcases hscope with rfl | rfl <;> rfl
  obtain ⟨hleads, hpassed⟩ := passed_recompute h hunread scope
  have honce := once_passEnd h hunread scope
  have hcircular := fun p => (Pass.mem_log_iff hleads rfl rfl p).2
  have hclean := clean_recompute h hwhole
  have hconsistent := consistent_recompute h scope
  have henv := surroundings_prepared e scope
  rw [← hafter] at hpassed hclean hconsistent
  constructor
  case reported =>
    exact ⟨_, hresult, (ncard_of_nodup (honce.nodup.sublist honce.sublist) hcircular).symm⟩
  case marked =>
    intro p hp
    have hmarked := hpassed.sound.valid.marked p ((hcircular p).mpr hp)
    rw [henv] at hmarked
    rw [hpassed.workbook_eq]
    exact hmarked
  case evaluated =>
    intro p hp hnot
    have heq := hpassed.sound.valid.computed_eq p hp fun hp => hnot ((hcircular p).mp hp)
    rw [henv] at heq
    rw [hpassed.workbook_eq]
    exact heq
  case clean => exact hclean
  case idle =>
    intro p c hc
    refine ⟨(hconsistent.cells p c hc).idle, ?_⟩
    by_contra hflag
    exact hclean p (hconsistent.flagged p c hc (by simpa using hflag))

end Consistent

/-- **Every recalculation ends and computes each of its cells once**, whatever cycles there are. In a
reachable engine that has read all formulas, one of all dirty cells computes exactly these and one of all
cells exactly the stored ones. No cell is dirty or under evaluation afterwards, and the circular errors that
are reported are the cells that became one without being evaluated. -/
theorem Reachable.computesOnce {library : Library} {e : Engine} (h : Reachable library e)
    (hunread : ∀ p, p ∉ e.unread) :
    (e.Computes .dirty {p | p ∈ e.dirty} ∧ e.Clears .dirty) ∧
      e.Computes .full {p | (e.workbook.cell? p).isSome = true} ∧ e.Clears .full := by
  have hdirty := clears_recalculate h.consistent hunread (Or.inl rfl)
  have hfull := clears_recalculate h.consistent hunread (Or.inr rfl)
  refine ⟨⟨computes_of_mem h.consistent hunread rfl ?_, hdirty⟩,
    computes_of_mem h.consistent hunread rfl ?_, hfull⟩
  · exact mem_computed_passEnd h.consistent hunread (by simp)
  · intro p
    rw [mem_computed_passEnd h.consistent hunread (by simp), (markedBy_prepared e .full).mem_dirty]
    constructor
    · rintro (hp | ⟨-, hp⟩)
      · exact h.consistent.stored p hp
      · exact hp
    · exact fun hp => Or.inr ⟨(Workbook.mem_positions h.consistent.wellFormed).mpr hp, hp⟩

/-- Calls that leave a cycle with a formula that reads it, all of them dirty, and a constant that is not.
One of the formulas was loaded, and has been read by a pass over the constant. -/
def ringWithReader : List Call :=
  [.addSheet "S", .setFormula firstSheet (.plain 1 1) "=B1", .setFormula firstSheet (.plain 2 1) "=A1",
    .loadCell firstSheet (.plain 3 1) ⟨"=A1+1", .empty⟩, .setValue firstSheet (.plain 4 1) (.boolean true),
    .evaluateCell firstSheet (.plain 4 1)]

theorem reachable_ringWithReader : Reachable .standard ((start {} .standard).run ringWithReader) :=
  (Reachable.start {} ⟨by decide, by decide⟩).run ringWithReader

theorem not_mem_unread_ringWithReader (p : Position) : p ∉ ((start {} .standard).run ringWithReader).unread :=
  Std.TreeSet.not_mem_of_isEmpty (by decide +kernel)

theorem computesOnce_ringWithReader :
    (Reachable .standard ((start {} .standard).run ringWithReader) ∧
        ∀ p, p ∉ ((start {} .standard).run ringWithReader).unread) ∧
      ((start {} .standard).run ringWithReader).dirty.toList =
        [⟨firstSheet, 1, 1⟩, ⟨firstSheet, 1, 2⟩, ⟨firstSheet, 1, 3⟩] ∧
      (((start {} .standard).run ringWithReader).Computes .dirty
          {p | p ∈ ((start {} .standard).run ringWithReader).dirty} ∧
        ((start {} .standard).run ringWithReader).Clears .dirty) ∧
      ((start {} .standard).run ringWithReader).Computes .full
          {p | (((start {} .standard).run ringWithReader).workbook.cell? p).isSome = true} ∧
        ((start {} .standard).run ringWithReader).Clears .full :=
  ⟨⟨reachable_ringWithReader, not_mem_unread_ringWithReader⟩, by decide +kernel,
    Reachable.computesOnce reachable_ringWithReader not_mem_unread_ringWithReader⟩

end Engine

end Spreadsheet
