import Spreadsheet.Proofs.PassState

/-!
# Pass steps: every step keeps the invariant

A step takes up a cell, marks a cycle, drops an awaited cell that is finished, or finishes the cell on top
of the stack. `Pass.Move` lists these four, and `Running.move` says that there is no other step. Each of
the four keeps the invariant (`valid_begin`, `valid_markCycle`, `valid_drop`, `valid_finish`), and so does
every step (`running_step`).
-/

namespace Spreadsheet

open DependencyGraph Relation

namespace Pass

variable {env : Surroundings} {w₀ : Workbook} {D : PositionSet} {s : Pass}

/-! ### Taking up a cell -/

theorem begin_eq {p : Position} {c : Cell} (h : s.workbook.cell? p = some c) :
    begin env s p = { s with
      workbook := s.workbook.modifyCell p Cell.begin
      waiting := s.waiting.erase p
      stack := ⟨p, awaitedBy env s.dirty p, false⟩ :: s.stack } := by
  unfold begin
  rw [h]

/-- The cells that a formula waits for are the unfinished ones that it reads. -/
theorem mem_awaitedBy (env : Surroundings) (unfinished : PositionSet) (reader q : Position) :
    q ∈ awaitedBy env unfinished reader ↔ env.graph.Reads reader q ∧ q ∈ unfinished := by
  unfold awaitedBy Reads
  rw [List.mem_flatMap]
  constructor
  · rintro ⟨a, ha, hq⟩
    cases a with
    | point p =>
      dsimp only at hq
      split at hq
      · next hp =>
        have heq : q = p := List.mem_singleton.mp hq
        subst heq
        exact ⟨⟨.point q, ha, by simp [Area.covers]⟩, hp⟩
      · exact absurd hq List.not_mem_nil
    | range sheet rect =>
      obtain ⟨hmem, hcovers⟩ := List.mem_filter.mp hq
      exact ⟨⟨_, ha, hcovers⟩, Std.TreeSet.mem_toList.mp hmem⟩
  · rintro ⟨⟨a, ha, hcovers⟩, hq⟩
    refine ⟨a, ha, ?_⟩
    cases a with
    | point p =>
      obtain rfl : p = q := by simpa [Area.covers] using hcovers
      dsimp only
      rw [if_pos (show unfinished.contains p = true from hq)]
      exact List.mem_singleton.mpr rfl
    | range sheet rect => exact List.mem_filter.mpr ⟨Std.TreeSet.mem_toList.mpr hq, hcovers⟩

/-- A dirty cell that is not on the stack is still as the pass found it. -/
theorem Valid.idle_of_dirty (h : Valid env w₀ D s) {p : Position} (hp : p ∈ s.dirty)
    (hnot : p ∉ s.stacked) : s.workbook.cell? p = w₀.cell? p :=
  h.idle p ((h.dirty_iff p).mp hp).2 hnot

/-- Cells that were taken up or computed are not taken up again. -/
theorem cell?_taken {w : Workbook} {p q : Position} (hq : q ≠ p) :
    (w.modifyCell p Cell.begin).cell? q = w.cell? q := by
  rw [Workbook.cell?_modifyCell, if_neg hq]

/-- Taking up a cell changes nothing that is computed. -/
theorem Valid.computedValue_taken (h : Valid env w₀ D s) (hground : Ground env w₀ D) (p q : Position) :
    computedValue env (s.workbook.modifyCell p Cell.begin) q = computedValue env s.workbook q := by
  have hvalue : ∀ r, (s.workbook.modifyCell p Cell.begin).value r = s.workbook.value r := fun r =>
    Workbook.value_modifyCell Cell.value_begin p
  have hcontent : (s.workbook.modifyCell p Cell.begin).content? q = s.workbook.content? q :=
    Workbook.content?_modifyCell Cell.content_begin p
  refine computedValue_congr hground ((Workbook.sameFrame_modifyCell _ _ _).trans h.frame) h.frame
    (hcontent.trans (h.content?_eq q)) (h.content?_eq q) ?_ fun r _ => ?_
  · exact fun _ _ _ _ => hvalue q
  · exact hvalue r

/-- **Taking up a cell keeps the invariant**, if the cell on top of the stack reads it. -/
theorem valid_begin (h : Valid env w₀ D s) (hground : Ground env w₀ D) {p : Position}
    (hp : p ∈ s.dirty) (hnot : p ∉ s.stacked) (hread : ∀ q ∈ s.stacked.head?, env.graph.Reads q p) :
    Valid env w₀ D (begin env s p) := by
  obtain ⟨hD, hnew⟩ := (h.dirty_iff p).mp hp
  obtain ⟨c, hc⟩ := Option.isSome_iff_exists.mp (hground.stored p hD)
  have hidle := h.idle_of_dirty hp hnot
  rw [begin_eq (hidle.trans hc)]
  have hcomputed : ∀ q ∈ s.computed, q ≠ p := fun q hq heq => hnew (heq ▸ hq)
  have hvalue : ∀ q, (s.workbook.modifyCell p Cell.begin).value q = s.workbook.value q := fun q =>
    Workbook.value_modifyCell Cell.value_begin p
  constructor
  case wellFormed => exact h.wellFormed.modifySheet _ _
  case frame => exact (Workbook.sameFrame_modifyCell _ _ _).trans h.frame
  case dirty_iff => exact h.dirty_iff
  case computed_mem => exact h.computed_mem
  case circular_mem => exact h.circular_mem
  case stacked_dirty => exact List.forall_mem_cons.mpr ⟨hp, h.stacked_dirty⟩
  case nodup => exact List.nodup_cons.mpr ⟨hnot, h.nodup⟩
  case chain =>
    show (p :: s.stacked).IsChain _
    have hchain := h.chain
    cases hs : s.stacked with
    | nil => exact List.isChain_singleton p
    | cons q rest =>
      rw [hs] at hchain hread
      exact List.isChain_cons_cons.mpr ⟨hread q rfl, hchain⟩
  case awaited =>
    refine List.forall_mem_cons.mpr ⟨fun q hq => ?_, h.awaited⟩
    exact ((mem_awaitedBy env s.dirty p q).mp hq).1
  case onCycle => exact List.forall_mem_cons.mpr ⟨fun hcyclic => absurd hcyclic Bool.false_ne_true, h.onCycle⟩
  case idle =>
    intro q hq hqs
    obtain ⟨hqp, hqs⟩ := List.ne_and_not_mem_of_not_mem_cons hqs
    exact (cell?_taken hqp).trans (h.idle q hq hqs)
  case begun =>
    refine List.forall_mem_cons.mpr ⟨?_, fun q hq => ?_⟩
    · show (s.workbook.modifyCell p Cell.begin).cell? p = _
      rw [Workbook.cell?_modifyCell, if_pos rfl, hidle]
    · have hne : q ≠ p := fun heq => hnot (heq ▸ hq)
      exact (cell?_taken hne).trans (h.begun q hq)
  case finished =>
    intro q hq
    obtain ⟨v, hv, hconstant⟩ := h.finished q hq
    exact ⟨v, (cell?_taken (hcomputed q hq)).trans hv, hconstant⟩
  case kept => exact fun q hq f hf hs hx => (hvalue q).trans (h.kept q hq f hf hs hx)
  case recorded =>
    intro q hq
    obtain ⟨hc, hdiffers⟩ := h.recorded q hq
    exact ⟨hc, (congrArg _ (hvalue q)).trans hdiffers⟩
  case marked =>
    intro q hq
    obtain ⟨hcycle, hcircular⟩ := h.marked q hq
    exact ⟨hcycle, (hvalue q).trans hcircular⟩
  case computed_eq =>
    intro q hq hcircular
    exact ((hvalue q).trans (h.computed_eq q hq hcircular)).trans (h.computedValue_taken hground p q).symm
  case behind =>
    intro q hq z hz hdirty
    obtain ⟨hzs, hcircular⟩ := h.behind q hq z hz hdirty
    exact ⟨List.mem_cons_of_mem _ hzs, hcircular⟩
  case acyclic => exact h.acyclic

theorem waiting_begin (h : ∀ q, q ∈ s.waiting ↔ q ∈ s.dirty ∧ q ∉ s.stacked) {p : Position} {c : Cell}
    (hc : s.workbook.cell? p = some c) (q : Position) :
    q ∈ (begin env s p).waiting ↔ q ∈ (begin env s p).dirty ∧ q ∉ (begin env s p).stacked := by
  rw [begin_eq hc]
  show q ∈ s.waiting.erase p ↔ q ∈ s.dirty ∧ q ∉ p :: s.stacked
  rw [mem_erase_iff, h, List.mem_cons]
  tauto

theorem awaiting_begin {p : Position} {c : Cell} (hc : s.workbook.cell? p = some c)
    (h : Awaiting env s.dirty [p] s.stack) :
    Awaiting env (begin env s p).dirty [] (begin env s p).stack := by
  rw [begin_eq hc]
  exact ⟨fun q hreads hq => Or.inl ((mem_awaitedBy env s.dirty p q).mpr ⟨hreads, hq⟩), h⟩

/-! ### The cell on top of the stack -/

theorem stacked_of_stack {f : Frame} {below : List Frame} (hs : s.stack = f :: below) :
    s.stacked = f.cell :: below.map Frame.cell := by
  unfold stacked
  rw [hs]
  rfl

theorem top_mem_stacked {f : Frame} {below : List Frame} (hs : s.stack = f :: below) : f.cell ∈ s.stacked := by
  rw [stacked_of_stack hs]
  exact List.mem_cons_self

section Finish

variable {cell : Position} {cyclic : Bool} {below : List Frame}

/-- Every dirty cell that the cell on top of the stack reads stands on the stack when it is finished. -/
theorem Running.reads_stacked (h : Running env w₀ D s) (hs : s.stack = ⟨cell, [], cyclic⟩ :: below)
    {q : Position} (hreads : env.graph.Reads cell q) (hq : q ∈ s.dirty) : q ∈ s.stacked ∧ cyclic = true := by
  have hawaiting := h.awaiting
  rw [hs] at hawaiting
  rcases hawaiting.1 q hreads hq with ha | ha | ⟨hc, ha⟩
  · exact absurd ha List.not_mem_nil
  · exact absurd ha List.not_mem_nil
  · unfold stacked
    rw [hs]
    exact ⟨ha, hc⟩

/-- Nothing that the cell on top of the stack reads is dirty any more when it is finished without a mark. -/
theorem Running.reads_finished (h : Running env w₀ D s) (hs : s.stack = ⟨cell, [], false⟩ :: below)
    {q : Position} (hreads : env.graph.Reads cell q) : q ∉ s.dirty := by
  intro hq
  cases (h.reads_stacked hs hreads hq).2

section Top

variable {awaited : List Position} (h : Valid env w₀ D s) (hs : s.stack = ⟨cell, awaited, cyclic⟩ :: below)
include h hs

theorem Valid.top_dirty : cell ∈ s.dirty := h.stacked_dirty cell (top_mem_stacked hs)

/-- The cell on top of the stack has not been computed. -/
theorem Valid.ne_top {q : Position} (hq : q ∈ s.computed) : q ≠ cell := by
  rintro rfl
  exact ((h.dirty_iff q).mp (h.top_dirty hs)).2 hq

/-- A cell that was computed without becoming a circular error does not read the one on top of the stack. -/
theorem Valid.not_reads_top {q : Position} (hq : q ∈ s.computed) (hnot : q ∉ s.circular) :
    ¬env.graph.Reads q cell :=
  fun hreads => hnot (h.behind q hq cell hreads (h.top_dirty hs)).2

theorem Valid.mem_below_iff (q : Position) : q ∈ below.map Frame.cell ↔ q ∈ s.stacked ∧ q ≠ cell := by
  have hnodup := h.nodup
  rw [stacked_of_stack hs] at hnodup ⊢
  rw [List.mem_cons]
  constructor
  · exact fun hq => ⟨Or.inr hq, fun heq => (List.nodup_cons.mp hnodup).1 (heq ▸ hq)⟩
  · exact fun hq => hq.1.resolve_left hq.2

end Top

/-! ### The value of a finished cell -/

/-- The value that finishing a cell stores. -/
def finalValue (env : Surroundings) (s : Pass) (f : Frame) : Value :=
  if f.cyclic then .error Cause.cycle.toError else computedValue env s.workbook f.cell

/-- A marked cell has a formula that was read, since a cell without one reads nothing. -/
theorem Valid.isSome_tree?_of_marked (h : Valid env w₀ D s) (hground : Ground env w₀ D)
    (hs : s.stack = ⟨cell, [], true⟩ :: below) : (w₀.tree? cell).isSome = true := by
  have hcycle : env.graph.OnCycle cell :=
    h.onCycle ⟨cell, [], true⟩ (by rw [hs]; exact List.mem_cons_self) rfl
  obtain ⟨z, hreads, -⟩ := TransGen.head'_iff.mp hcycle
  exact (hground.reading cell z hreads).2

/-- A constant is finished with what it is. -/
theorem Valid.finalValue_constant (h : Valid env w₀ D s) (hground : Ground env w₀ D)
    (hs : s.stack = ⟨cell, [], cyclic⟩ :: below) {c : Cell} {u : Value} (hc : w₀.cell? cell = some c)
    (hu : c.content = .constant u) : finalValue env s ⟨cell, [], cyclic⟩ = u := by
  cases cyclic with
  | true =>
    have htree := h.isSome_tree?_of_marked hground hs
    unfold Workbook.tree? at htree
    rw [hc, Option.bind_some, Option.isSome_iff_exists] at htree
    obtain ⟨x, hx⟩ := htree
    obtain ⟨f, hf, -⟩ := Cell.tree?_eq_some.mp hx
    rw [hu] at hf
    cases hf
  | false =>
    have hbegun := h.begun cell (top_mem_stacked hs)
    rw [hc] at hbegun
    exact computedValue_constant hbegun hu

/-- A formula that was not read keeps its value. -/
theorem Valid.finalValue_unread (h : Valid env w₀ D s) (hground : Ground env w₀ D)
    (hs : s.stack = ⟨cell, [], cyclic⟩ :: below) {f : Formula} (hf : w₀.content? cell = some (.formula f))
    (hstatic : f.staticError? = none) (hx : f.tree? = none) :
    finalValue env s ⟨cell, [], cyclic⟩ = s.workbook.value cell := by
  cases cyclic with
  | true =>
    have htree := h.isSome_tree?_of_marked hground hs
    obtain ⟨c, hc, hf⟩ := Option.map_eq_some_iff.mp hf
    have hformula : (w₀.cell? cell).bind Cell.formula? = some f := by
      rw [hc]
      exact Cell.formula?_eq_some.mpr hf
    rw [Engine.tree?_of_formula hformula, hx] at htree
    cases htree
  | false =>
    rw [← h.content?_eq cell] at hf
    obtain ⟨c, hc, hf⟩ := Option.map_eq_some_iff.mp hf
    rw [Workbook.value_of_cell hc]
    exact computedValue_unread hc hf hstatic hx

/-! ### Finishing a cell -/

/-- The state after the cell on top of the stack was finished, part by part. -/
def popped (env : Surroundings) (s : Pass) (f : Frame) (below : List Frame) : Pass :=
  { s with
    workbook := s.workbook.modifyCell f.cell fun c => c.finish (finalValue env s f)
    stack := below
    dirty := s.dirty.erase f.cell
    computed := f.cell :: s.computed
    circular := if f.cyclic then f.cell :: s.circular else s.circular
    changed := if (s.workbook.cell? f.cell).any (fun c => c.wouldChange (finalValue env s f))
      then f.cell :: s.changed else s.changed }

theorem finish_eq_popped (f : Frame) : finish env { s with stack := below } f = popped env s f below := rfl

theorem mem_circular_popped (q : Position) :
    q ∈ (popped env s ⟨cell, [], cyclic⟩ below).circular ↔ (cyclic = true ∧ q = cell) ∨ q ∈ s.circular := by
  show q ∈ (if cyclic = true then cell :: s.circular else s.circular) ↔ _
  cases cyclic <;> simp

/-- A cell is recorded as changed when it is finished with a value that is not the same as the one it had. -/
theorem mem_changed_popped {f : Frame} {q : Position} (hq : q ∈ (popped env s f below).changed) :
    (q = f.cell ∧ (s.workbook.value f.cell).same (finalValue env s f) = false) ∨ q ∈ s.changed := by
  unfold popped at hq
  dsimp only at hq
  split at hq
  · next hchange =>
    refine (List.mem_cons.mp hq).imp_left fun heq => ⟨heq, ?_⟩
    obtain ⟨c, hc, hdiffers⟩ := (Option.any_eq_true _ _).mp hchange
    rw [Workbook.value_of_cell hc]
    exact (Bool.not_eq_true' _).mp hdiffers
  · exact Or.inr hq

theorem sameFrame_popped {f : Frame} : (popped env s f below).workbook.SameFrame s.workbook :=
  Workbook.sameFrame_modifyCell _ _ _

theorem cell?_popped_of_ne {q : Position} (hq : q ≠ cell) :
    (popped env s ⟨cell, [], cyclic⟩ below).workbook.cell? q = s.workbook.cell? q :=
  (Workbook.cell?_modifyCell _ _ _ _).trans (if_neg hq)

theorem value_popped_of_ne {q : Position} (hq : q ≠ cell) :
    (popped env s ⟨cell, [], cyclic⟩ below).workbook.value q = s.workbook.value q := by
  rw [Workbook.value_eq, cell?_popped_of_ne hq, ← Workbook.value_eq]

/-- Finishing a cell changes no content. -/
theorem content?_popped (q : Position) :
    (popped env s ⟨cell, [], cyclic⟩ below).workbook.content? q = s.workbook.content? q :=
  Workbook.content?_modifyCell (fun c => c.content_finish _) cell

section Popped

variable (h : Running env w₀ D s) (hground : Ground env w₀ D) (hs : s.stack = ⟨cell, [], cyclic⟩ :: below)
include h hs

theorem Running.cell?_popped_top : (popped env s ⟨cell, [], cyclic⟩ below).workbook.cell? cell =
    (w₀.cell? cell).map fun c => c.finish (finalValue env s ⟨cell, [], cyclic⟩) := by
  refine (Workbook.cell?_modifyCell _ _ _ _).trans ((if_pos rfl).trans ?_)
  rw [h.begun cell (top_mem_stacked hs), Option.map_map]
  rfl

include hground in
theorem Running.value_popped_top :
    (popped env s ⟨cell, [], cyclic⟩ below).workbook.value cell = finalValue env s ⟨cell, [], cyclic⟩ := by
  obtain ⟨hD, -⟩ := (h.dirty_iff cell).mp (h.top_dirty hs)
  obtain ⟨c, hc⟩ := Option.isSome_iff_exists.mp (hground.stored cell hD)
  rw [Workbook.value_eq, h.cell?_popped_top hs, hc]
  rfl

omit hs in
include hground in
/-- Finishing a cell changes nothing that is computed for one that does not read it. -/
theorem Running.computedValue_popped {q : Position}
    (hown : ∀ f, s.workbook.content? q = some (.formula f) → f.staticError? = none → f.tree? = none →
      (popped env s ⟨cell, [], cyclic⟩ below).workbook.value q = s.workbook.value q)
    (hreads : ¬env.graph.Reads q cell) :
    computedValue env (popped env s ⟨cell, [], cyclic⟩ below).workbook q = computedValue env s.workbook q := by
  have hcontent : (popped env s ⟨cell, [], cyclic⟩ below).workbook.content? q = s.workbook.content? q :=
    content?_popped q
  refine computedValue_congr hground (sameFrame_popped.trans h.frame) h.frame
    (hcontent.trans (h.content?_eq q)) (h.content?_eq q) ?_ fun z hz => ?_
  · rw [hcontent]
    exact hown
  · exact value_popped_of_ne fun heq => hreads (heq ▸ hz)

include hground in
/-- A finished cell that did not become a circular error holds what is computed for it. -/
theorem Running.computed_popped {q : Position}
    (hq : q ∈ cell :: s.computed) (hnot : q ∉ (popped env s ⟨cell, [], cyclic⟩ below).circular) :
    (popped env s ⟨cell, [], cyclic⟩ below).workbook.value q =
      computedValue env (popped env s ⟨cell, [], cyclic⟩ below).workbook q := by
  rw [mem_circular_popped, not_or] at hnot
  rcases List.mem_cons.mp hq with rfl | hq
  · cases cyclic with
    | true => exact absurd ⟨rfl, rfl⟩ hnot.1
    | false =>
      refine (h.value_popped_top hground hs).trans
        (h.computedValue_popped hground (fun f hf hstatic hx => ?_) ?_).symm
      · rw [h.content?_eq] at hf
        exact (h.value_popped_top hground hs).trans (h.finalValue_unread hground hs hf hstatic hx)
      · exact fun hreads => h.reads_finished hs hreads (h.top_dirty hs)
  · have hvalue : (popped env s ⟨cell, [], cyclic⟩ below).workbook.value q = s.workbook.value q :=
      value_popped_of_ne (h.ne_top hs hq)
    rw [hvalue, h.computed_eq q hq hnot.2]
    exact (h.computedValue_popped hground (fun _ _ _ _ => hvalue) (h.not_reads_top hs hq hnot.2)).symm

/-- The new cell is read by no computed cell but circular errors, itself included, so there is no new cycle. -/
theorem Running.acyclic_popped (p : Position) :
    ¬TransGen (fun r q => env.graph.Reads r q ∧ r ∈ cell :: s.computed ∧
      r ∉ (popped env s ⟨cell, [], cyclic⟩ below).circular) p p := by
  refine acyclic_of_source (y := cell) h.acyclic ?_ ?_ p
  · rintro p q ⟨hreads, hp, hnot⟩
    rw [mem_circular_popped, not_or] at hnot
    exact (List.mem_cons.mp hp).elim Or.inr fun hp => Or.inl ⟨hreads, hp, hnot.2⟩
  · rintro p ⟨hreads, hp, hnot⟩
    rw [mem_circular_popped, not_or] at hnot
    rcases List.mem_cons.mp hp with rfl | hp
    · exact hnot.1 ⟨(h.reads_stacked hs hreads (h.top_dirty hs)).2, rfl⟩
    · exact h.not_reads_top hs hp hnot.2 hreads

include hground in
/-- **Finishing the cell on top of the stack keeps the invariant.** -/
theorem valid_finish : Valid env w₀ D (popped env s ⟨cell, [], cyclic⟩ below) := by
  obtain ⟨hD, hnew⟩ := (h.dirty_iff cell).mp (h.top_dirty hs)
  have hmem_below := h.mem_below_iff hs
  have hmem_top : (⟨cell, [], cyclic⟩ : Frame) ∈ s.stack := by
    rw [hs]
    exact List.mem_cons_self
  have hsubset : ∀ f ∈ below, f ∈ s.stack := by
    rw [hs]
    exact fun f hf => List.mem_cons_of_mem _ hf
  constructor
  case wellFormed => exact h.wellFormed.modifySheet _ _
  case frame => exact sameFrame_popped.trans h.frame
  case dirty_iff =>
    intro q
    show q ∈ s.dirty.erase cell ↔ q ∈ D ∧ q ∉ cell :: s.computed
    rw [mem_erase_iff, h.dirty_iff, List.mem_cons]
    tauto
  case computed_mem => exact List.forall_mem_cons.mpr ⟨hD, h.computed_mem⟩
  case circular_mem =>
    intro q hq
    rcases (mem_circular_popped q).mp hq with ⟨-, rfl⟩ | hq
    · exact List.mem_cons_self
    · exact List.mem_cons_of_mem _ (h.circular_mem q hq)
  case stacked_dirty =>
    intro q hq
    obtain ⟨hqs, hne⟩ := (hmem_below q).mp hq
    exact (mem_erase_iff _ _ _).mpr ⟨hne, h.stacked_dirty q hqs⟩
  case nodup =>
    have hnodup := h.nodup
    rw [stacked_of_stack hs] at hnodup
    exact (List.nodup_cons.mp hnodup).2
  case chain =>
    have hchain := h.chain
    rw [stacked_of_stack hs] at hchain
    exact hchain.of_cons
  case awaited => exact fun f hf => h.awaited f (hsubset f hf)
  case onCycle => exact fun f hf => h.onCycle f (hsubset f hf)
  case idle =>
    intro q hq hqs
    obtain ⟨hne, hq⟩ := List.ne_and_not_mem_of_not_mem_cons hq
    exact (cell?_popped_of_ne hne).trans (h.idle q hq fun hm => hqs ((hmem_below q).mpr ⟨hm, hne⟩))
  case begun =>
    intro q hq
    obtain ⟨hqs, hne⟩ := (hmem_below q).mp hq
    exact (cell?_popped_of_ne hne).trans (h.begun q hqs)
  case finished =>
    refine List.forall_mem_cons.mpr ⟨⟨_, h.cell?_popped_top hs, ?_⟩, fun q hq => ?_⟩
    · exact fun c u hc hu => h.finalValue_constant hground hs hc hu
    · obtain ⟨u, hu, hconstant⟩ := h.finished q hq
      exact ⟨u, (cell?_popped_of_ne (h.ne_top hs hq)).trans hu, hconstant⟩
  case kept =>
    refine List.forall_mem_cons.mpr ⟨fun f hf hstatic hx => ?_, fun q hq f hf hstatic hx => ?_⟩
    · rw [h.value_popped_top hground hs, ← h.value_eq hnew]
      exact h.finalValue_unread hground hs hf hstatic hx
    · exact (value_popped_of_ne (h.ne_top hs hq)).trans (h.kept q hq f hf hstatic hx)
  case recorded =>
    intro q hq
    rcases mem_changed_popped hq with ⟨rfl, hdiffers⟩ | hq
    · rw [h.value_popped_top hground hs, ← h.value_eq hnew]
      exact ⟨List.mem_cons_self, hdiffers⟩
    · obtain ⟨hc, hdiffers⟩ := h.recorded q hq
      rw [value_popped_of_ne (h.ne_top hs hc)]
      exact ⟨List.mem_cons_of_mem _ hc, hdiffers⟩
  case marked =>
    intro q hq
    rcases (mem_circular_popped q).mp hq with ⟨hcyclic, rfl⟩ | hq
    · exact ⟨h.onCycle _ hmem_top hcyclic, (h.value_popped_top hground hs).trans (if_pos hcyclic)⟩
    · obtain ⟨hcycle, hvalue⟩ := h.marked q hq
      exact ⟨hcycle, (value_popped_of_ne (h.ne_top hs (h.circular_mem q hq))).trans hvalue⟩
  case computed_eq => exact fun q hq hnot => h.computed_popped hground hs hq hnot
  case behind =>
    intro q hq z hreads hz
    obtain ⟨hne, hdirty⟩ := (mem_erase_iff _ _ _).mp hz
    rcases List.mem_cons.mp hq with rfl | hq
    · obtain ⟨hzs, hcyclic⟩ := h.reads_stacked hs hreads hdirty
      exact ⟨(hmem_below z).mpr ⟨hzs, hne⟩, (mem_circular_popped q).mpr (Or.inl ⟨hcyclic, rfl⟩)⟩
    · obtain ⟨hzs, hcircular⟩ := h.behind q hq z hreads hdirty
      exact ⟨(hmem_below z).mpr ⟨hzs, hne⟩, (mem_circular_popped q).mpr (Or.inr hcircular)⟩
  case acyclic => exact h.acyclic_popped hs

end Popped

end Finish

/-! ### The other two steps -/

/-- Dropping an awaited cell keeps what the invariant says of a state by itself. -/
theorem valid_drop (h : Valid env w₀ D s) {cell next : Position} {awaited : List Position} {cyclic : Bool}
    {below : List Frame} (hs : s.stack = ⟨cell, next :: awaited, cyclic⟩ :: below) :
    Valid env w₀ D { s with stack := ⟨cell, awaited, cyclic⟩ :: below } := by
  have hstacked : s.stacked = Pass.stacked { s with stack := ⟨cell, awaited, cyclic⟩ :: below } := by
    unfold stacked
    rw [hs]
    rfl
  refine { h with
    stacked_dirty := hstacked ▸ h.stacked_dirty
    nodup := hstacked ▸ h.nodup
    chain := hstacked ▸ h.chain
    awaited := ?_
    onCycle := ?_
    idle := hstacked ▸ h.idle
    begun := hstacked ▸ h.begun
    behind := hstacked ▸ h.behind }
  · intro f hf q hq
    rcases List.mem_cons.mp hf with rfl | hf
    · exact h.awaited ⟨cell, next :: awaited, cyclic⟩ (by rw [hs]; exact List.mem_cons_self) q
        (List.mem_cons_of_mem _ hq)
    · exact h.awaited f (by rw [hs]; exact List.mem_cons_of_mem _ hf) q hq
  · intro f hf
    rcases List.mem_cons.mp hf with rfl | hf
    · exact h.onCycle ⟨cell, next :: awaited, cyclic⟩ (by rw [hs]; exact List.mem_cons_self)
    · exact h.onCycle f (by rw [hs]; exact List.mem_cons_of_mem _ hf)

/-- **Marking a cycle keeps the invariant**: the cells between the one on top and the one it reads lie on a
cycle. -/
theorem valid_markCycle (h : Valid env w₀ D s) {top : Frame} {below : List Frame}
    (hs : s.stack = top :: below) {p : Position} (hp : p ∈ s.stacked)
    (hreads : env.graph.Reads top.cell p) :
    Valid env w₀ D { s with stack := markCycle p s.stack } := by
  have hstacked : s.stacked = Pass.stacked { s with stack := markCycle p s.stack } :=
    (map_cell_markCycle p s.stack).symm
  have hchain := h.chain
  unfold stacked at hchain hp
  rw [hs] at hchain hp
  refine { h with
    stacked_dirty := hstacked ▸ h.stacked_dirty
    nodup := hstacked ▸ h.nodup
    chain := hstacked ▸ h.chain
    awaited := ?_
    onCycle := ?_
    idle := hstacked ▸ h.idle
    begun := hstacked ▸ h.begun
    behind := hstacked ▸ h.behind }
  · intro f hf q hq
    have hf : f ∈ markCycle p (top :: below) := hs ▸ hf
    obtain ⟨g, hg, hcell, hawaited, -⟩ := mem_markCycle hchain hp hf
    rw [← hcell]
    rw [← hawaited] at hq
    exact h.awaited g (hs ▸ hg) q hq
  · intro f hf hcyclic
    have hf : f ∈ markCycle p (top :: below) := hs ▸ hf
    obtain ⟨g, hg, hcell, -, hmark⟩ := mem_markCycle hchain hp hf
    rcases hmark hcyclic with hold | ⟨hfrom, hto⟩
    · rw [← hcell]
      exact h.onCycle g (hs ▸ hg) hold
    · exact TransGen.trans_right hto (TransGen.head' hreads hfrom)

/-! ### What a step can be -/

/-- What a step comes to while a pass is running. -/
inductive Move (env : Surroundings) (s : Pass) : Pass → Prop
  /-- The cell on top waits for nothing and is finished. -/
  | finish {cell : Position} {cyclic : Bool} {below : List Frame}
      (hs : s.stack = ⟨cell, [], cyclic⟩ :: below) :
      Move env s (finish env { s with stack := below } ⟨cell, [], cyclic⟩)
  /-- The next awaited cell is taken up. -/
  | takeUp {cell next : Position} {awaited : List Position} {cyclic : Bool} {below : List Frame}
      (hs : s.stack = ⟨cell, next :: awaited, cyclic⟩ :: below) (hdirty : next ∈ s.dirty)
      (hnot : next ∉ s.stacked) :
      Move env s (begin env { s with stack := ⟨cell, awaited, cyclic⟩ :: below } next)
  /-- The next awaited cell stands on the stack, and the cells down to it are marked. -/
  | mark {cell next : Position} {awaited : List Position} {cyclic : Bool} {below : List Frame}
      (hs : s.stack = ⟨cell, next :: awaited, cyclic⟩ :: below) (hdirty : next ∈ s.dirty)
      (hmem : next ∈ s.stacked) :
      Move env s { s with stack := markCycle next (⟨cell, awaited, cyclic⟩ :: below) }
  /-- The next awaited cell is finished already. -/
  | drop {cell next : Position} {awaited : List Position} {cyclic : Bool} {below : List Frame}
      (hs : s.stack = ⟨cell, next :: awaited, cyclic⟩ :: below) (hclean : next ∉ s.dirty) :
      Move env s { s with stack := ⟨cell, awaited, cyclic⟩ :: below }

theorem any_cell_iff (stack : List Frame) (p : Position) :
    stack.any (fun f => f.cell == p) = true ↔ p ∈ stack.map Frame.cell := by
  rw [List.any_eq_true, List.mem_map]
  simp

theorem Running.move (h : Running env w₀ D s) {t : Pass} (hstep : step env s = some t) :
    Move env s t := by
  unfold step at hstep
  split at hstep
  · cases hstep
  · next cell cyclic below hs =>
    cases hstep
    exact Move.finish hs
  · next cell next awaited cyclic below hs =>
    have hstacked := stacked_of_stack hs
    have hon : (s.dirty.contains next && (⟨cell, awaited, cyclic⟩ :: below).any
        (fun f => f.cell == next)) = true ↔ next ∈ s.dirty ∧ next ∈ s.stacked := by
      rw [Bool.and_eq_true_iff, any_cell_iff, hstacked]
      exact Iff.rfl
    dsimp only at hstep
    split at hstep
    · next hwaiting =>
      cases hstep
      obtain ⟨hdirty, hnot⟩ := (h.waiting_iff next).mp hwaiting
      exact Move.takeUp hs hdirty hnot
    · next hwaiting =>
      split at hstep
      · next hmark =>
        cases hstep
        obtain ⟨hdirty, hmem⟩ := hon.mp hmark
        exact Move.mark hs hdirty hmem
      · next hdrop =>
        cases hstep
        refine Move.drop hs fun hdirty => hdrop (hon.mpr ⟨hdirty, ?_⟩)
        by_contra hnot
        exact hwaiting ((h.waiting_iff next).mpr ⟨hdirty, hnot⟩)

/-- The cell on top reads the next one it awaits. -/
theorem Valid.reads_next (h : Valid env w₀ D s) {cell next : Position} {awaited : List Position}
    {cyclic : Bool} {below : List Frame} (hs : s.stack = ⟨cell, next :: awaited, cyclic⟩ :: below) :
    env.graph.Reads cell next :=
  h.awaited ⟨cell, next :: awaited, cyclic⟩ (by rw [hs]; exact List.mem_cons_self) next List.mem_cons_self

/-- A dirty cell that is not on the stack is stored in every state. -/
theorem Valid.stored (h : Valid env w₀ D s) (hground : Ground env w₀ D) {p : Position} (hp : p ∈ s.dirty) :
    ∃ c, s.workbook.cell? p = some c :=
  Option.isSome_iff_exists.mp ((h.isSome_cell? p).trans (hground.stored p ((h.dirty_iff p).mp hp).1))

/-- **Every step keeps the invariant.** -/
theorem running_step (h : Running env w₀ D s) (hground : Ground env w₀ D) {t : Pass}
    (hstep : step env s = some t) : Running env w₀ D t := by
  have hawaiting := h.awaiting
  cases h.move hstep with
  | @finish cell cyclic below hs =>
    rw [hs] at hawaiting
    rw [finish_eq_popped]
    refine ⟨valid_finish h hground hs, fun q => ?_, ?_⟩
    · show q ∈ s.waiting ↔ q ∈ s.dirty.erase cell ∧ q ∉ below.map Frame.cell
      rw [h.waiting_iff, stacked_of_stack hs, mem_erase_iff, List.mem_cons]
      tauto
    · refine hawaiting.2.mono (fun q hq => ((mem_erase_iff _ _ _).mp hq).2) fun q hq habove => ?_
      exact absurd (List.mem_singleton.mp habove) ((mem_erase_iff _ _ _).mp hq).1
  | @takeUp cell next awaited cyclic below hs hdirty hnot =>
    obtain ⟨c, hc⟩ := h.stored hground hdirty
    have hstacked := stacked_of_stack hs
    rw [hs] at hawaiting
    rw [hstacked] at hnot
    refine ⟨valid_begin (valid_drop h.toValid hs) hground hdirty hnot ?_, ?_, ?_⟩
    · rintro q hq
      cases hq
      exact h.reads_next hs
    · refine waiting_begin (fun q => ?_) hc
      rw [h.waiting_iff, hstacked]
      exact Iff.rfl
    · refine awaiting_begin (s := { s with stack := ⟨cell, awaited, cyclic⟩ :: below }) hc ?_
      show Awaiting env s.dirty [next] (⟨cell, awaited, cyclic⟩ :: below)
      constructor
      · intro q hq hd
        rcases hawaiting.1 q hq hd with ha | ha | ha
        · rcases List.mem_cons.mp ha with rfl | ha
          · exact Or.inr (Or.inl List.mem_cons_self)
          · exact Or.inl ha
        · exact absurd ha List.not_mem_nil
        · exact Or.inr (Or.inr ha)
      · refine hawaiting.2.mono (fun q hq => hq) fun q _ ha => ?_
        rw [List.mem_singleton.mp ha]
        exact List.mem_cons_self
  | @mark cell next awaited cyclic below hs hdirty hmem =>
    rw [stacked_of_stack hs] at hmem
    rw [hs] at hawaiting
    refine ⟨valid_markCycle (valid_drop h.toValid hs) rfl hmem (h.reads_next hs), fun q => ?_, ?_⟩
    · show q ∈ s.waiting ↔
        q ∈ s.dirty ∧ q ∉ (markCycle next (⟨cell, awaited, cyclic⟩ :: below)).map Frame.cell
      rw [map_cell_markCycle, h.waiting_iff, stacked_of_stack hs]
      exact Iff.rfl
    · have htop : markCycle next (⟨cell, awaited, cyclic⟩ :: below) =
          markCycle next (⟨cell, awaited, true⟩ :: below) := rfl
      show Awaiting env s.dirty [] (markCycle next (⟨cell, awaited, cyclic⟩ :: below))
      have hmarked : Awaiting env s.dirty [] (⟨cell, awaited, true⟩ :: below) := by
        refine ⟨fun q hq hd => ?_, hawaiting.2⟩
        rcases hawaiting.1 q hq hd with ha | ha | ⟨-, ha⟩
        · rcases List.mem_cons.mp ha with rfl | ha
          · exact Or.inr (Or.inr ⟨rfl, hmem⟩)
          · exact Or.inl ha
        · exact absurd ha List.not_mem_nil
        · exact Or.inr (Or.inr ⟨rfl, ha⟩)
      rw [htop]
      exact hmarked.markCycle next
  | @drop cell next awaited cyclic below hs hclean =>
    rw [hs] at hawaiting
    refine ⟨valid_drop h.toValid hs, fun q => ?_, ⟨fun q hq hd => ?_, hawaiting.2⟩⟩
    · rw [h.waiting_iff, stacked_of_stack hs]
      exact Iff.rfl
    · rcases hawaiting.1 q hq hd with ha | ha | ha
      · rcases List.mem_cons.mp ha with rfl | ha
        · exact absurd hd hclean
        · exact Or.inl ha
      · exact absurd ha List.not_mem_nil
      · exact Or.inr (Or.inr ha)

end Pass

end Spreadsheet
