import Spreadsheet.Proofs.Loading
import Spreadsheet.Proofs.Passing

/-!
# Recomputing: the passes of the engine

A recalculation reads the loaded formulas, marks what its scope covers, and makes a pass.
`Engine.prepared` is the engine with the marks that a scope sets, and `passed_pass` says for every scope
that the pass leads from there. So every recalculation keeps the invariant (`consistent_recompute`) and
that there is a circular error on every cycle (`caught_recompute`). The scopes that compute every dirty
cell leave no cell dirty (`clean_recompute`) and keep that what is not stale is settled
(`settled_recompute`).
-/

namespace Spreadsheet

open DependencyGraph Relation

namespace Engine

/-- The cells that a scope marks before its pass. -/
def marksOf (e : Engine) : PassScope → List Position
  | .cell p => ((e.graph.cycleMembers e.workbook p).insert p).toList
  | .dirty => []
  | .full => e.workbook.positions

/-- The engine with the marks that a scope sets before its pass. -/
def prepared (e : Engine) (scope : PassScope) : Engine := (e.marksOf scope).foldl markCell e

/-- The cells that a scope computes, in their order. -/
def targetsOf (e : Engine) : PassScope → List Position
  | .cell p => [p]
  | scope => Pass.inOrder ((e.prepared scope).passState e.dirty)

theorem mark_passState (e : Engine) (waiting : PositionSet) (p : Position) :
    Pass.mark (e.passState waiting) p = (e.markCell p).passState waiting := by
  unfold Pass.mark markCell passState
  dsimp only
  cases e.workbook.cell? p <;> rfl

/-- The marks of a pass are those of the engine. -/
theorem foldl_mark_passState (e : Engine) (waiting : PositionSet) (ps : List Position) :
    ps.foldl Pass.mark (e.passState waiting) = (ps.foldl markCell e).passState waiting := by
  induction ps generalizing e with
  | nil => rfl
  | cons p ps ih =>
    rw [List.foldl_cons, List.foldl_cons, mark_passState]
    exact ih (e.markCell p)

/-- A pass computes the targets of its scope, one after the other, from the engine with its marks. -/
theorem pass_eq (e : Engine) (scope : PassScope) :
    e.pass scope =
      (e.targetsOf scope).foldl (Pass.compute e.surroundings) ((e.prepared scope).passState e.dirty) := by
  unfold pass Pass.run
  cases scope with
  | cell p =>
    show Pass.compute e.surroundings (((e.graph.cycleMembers e.workbook p).insert p).foldl Pass.mark
      (e.passState e.dirty)) p = _
    rw [Std.TreeSet.foldl_eq_foldl_toList, foldl_mark_passState]
    rfl
  | dirty => rfl
  | full =>
    show (Pass.inOrder (e.workbook.positions.foldl Pass.mark (e.passState e.dirty))).foldl
      (Pass.compute e.surroundings) (e.workbook.positions.foldl Pass.mark (e.passState e.dirty)) = _
    rw [foldl_mark_passState]
    rfl

theorem markedBy_prepared (e : Engine) (scope : PassScope) :
    MarkedBy (fun q => q ∈ e.marksOf scope) e (e.prepared scope) :=
  markedBy_foldl e (e.marksOf scope)

theorem surroundings_prepared (e : Engine) (scope : PassScope) :
    (e.prepared scope).surroundings = e.surroundings := by
  have hm := markedBy_prepared e scope
  unfold surroundings
  rw [hm.names_eq, hm.graph_eq, hm.settings_eq, hm.library_eq]

/-- Every dirty cell comes up in the order of a pass. -/
theorem mem_inOrder {s : Pass} (hw : s.workbook.WellFormed) {p : Position} (hp : p ∈ s.dirty)
    (hstored : (s.workbook.cell? p).isSome = true) : p ∈ s.inOrder := by
  obtain ⟨c, hc⟩ := Option.isSome_iff_exists.mp hstored
  obtain ⟨sheet, hsheet, -⟩ := Workbook.cell?_eq_some.mp hc
  unfold Pass.inOrder
  refine List.mem_flatMap.mpr ⟨p.sheet, hw.listed p.sheet ?_, ?_⟩
  · unfold Workbook.contains
    rw [hsheet]
    rfl
  · exact List.mem_filter.mpr ⟨Std.TreeSet.mem_toList.mpr hp, by simp⟩

section Consistent

variable {e : Engine}

theorem orderly_prepared (h : e.Consistent) (scope : PassScope) : (e.prepared scope).Orderly :=
  h.toOrderly.of_markedBy (markedBy_prepared e scope)

theorem linkedAt_prepared (h : e.Consistent) (scope : PassScope) (p : Position) :
    (e.prepared scope).LinkedAt p :=
  (markedBy_prepared e scope).linkedAt (h.linked p)

/-- **Every pass leads from the engine with its marks to its end**, and computes its targets if they are
dirty. -/
theorem passed_pass (h : e.Consistent) (scope : PassScope) (e' : Engine)
    (hrest : e' = { e with
      workbook := (e.pass scope).workbook, dirty := (e.pass scope).dirty, changes := e'.changes,
      mailbox := e'.mailbox }) :
    Passed (e.prepared scope) (e.pass scope) e' ∧
      Pass.Leads e.surroundings ((e.prepared scope).passState e.dirty) (e.pass scope) ∧
      ∀ p ∈ e.targetsOf scope, p ∉ e'.dirty := by
  have hground := ground_surroundings (orderly_prepared h scope) (linkedAt_prepared h scope)
  have hsound := sound_passState (orderly_prepared h scope).wellFormed e.dirty
  rw [surroundings_prepared] at hground hsound
  obtain ⟨hleads, hended, hclean⟩ :=
    Pass.leads_foldl_compute hsound hground rfl (e.targetsOf scope)
  rw [← pass_eq] at hleads hended hclean
  refine ⟨⟨?_, ?_, hended⟩, hleads, ?_⟩
  · have hm := (markedBy_prepared e scope).rest_eq
    rw [hm, hrest]
  · rw [surroundings_prepared]
    exact Pass.sound_of_leads hsound hground hleads
  · rw [hrest]
    exact hclean

/-! ### Which cells are marked, and which are left -/

/-- The scopes that cover all dirty cells compute every cell they mark. -/
theorem clean_pass (h : e.Consistent) {scope : PassScope} (hscope : ∀ p, scope ≠ .cell p) {e' : Engine}
    (hrest : e' = { e with
      workbook := (e.pass scope).workbook, dirty := (e.pass scope).dirty, changes := e'.changes,
      mailbox := e'.mailbox }) (p : Position) : p ∉ e'.dirty := by
  obtain ⟨hpassed, -, hclean⟩ := passed_pass h scope e' hrest
  intro hp
  have hD := ((hpassed.mem_dirty p).mp hp).1
  refine hclean p ?_ hp
  have hmem : p ∈ Pass.inOrder ((e.prepared scope).passState e.dirty) :=
    mem_inOrder (orderly_prepared h scope).wellFormed hD ((orderly_prepared h scope).stored p hD)
  cases scope with
  | cell q => exact absurd rfl (hscope q)
  | dirty => exact hmem
  | full => exact hmem

/-- With a formula that reads a cell, the scopes that cover all dirty cells mark the formula. -/
theorem marks_closed (h : e.Consistent) (hunread : ∀ p, p ∉ e.unread) {scope : PassScope}
    (hscope : ∀ p, scope ≠ .cell p) {x y : Position} (hx : x ∈ (e.prepared scope).dirty)
    (hreads : e.graph.Reads y x) : y ∈ (e.prepared scope).dirty := by
  have hm := markedBy_prepared e scope
  have hstored := isSome_of_wouldRead ((reads_iff_wouldRead (h.linked y)).mp hreads)
  rw [hm.mem_dirty] at hx ⊢
  cases scope with
  | cell q => exact absurd rfl (hscope q)
  | dirty =>
    rcases hx with hx | ⟨hx, -⟩
    · exact Or.inl (h.closed x hx (hunread x) y hreads)
    · exact absurd hx List.not_mem_nil
  | full => exact Or.inr ⟨(Workbook.mem_positions h.wellFormed).mpr hstored, hstored⟩

theorem isSome_of_reads (h : e.Consistent) {y x : Position} (hreads : e.graph.Reads y x) :
    (e.workbook.cell? y).isSome = true :=
  isSome_of_wouldRead ((reads_iff_wouldRead (h.linked y)).mp hreads)

/-- A formula that reads anything is stored. -/
theorem isSome_of_precedents (h : e.Consistent) {r : Position} (hr : e.graph.precedentsOf r ≠ []) :
    (e.workbook.cell? r).isSome = true := by
  by_contra hnot
  have hnone : e.workbook.tree? r = none := by
    unfold Workbook.tree?
    rw [Option.not_isSome_iff_eq_none.mp hnot]
    rfl
  have hlink := congrArg Link.areas (h.linked r).link_eq
  unfold linkAt at hlink
  rw [hnone] at hlink
  exact hr hlink

/-- The cells that are marked along with a single cell are those that lie on a cycle with it. -/
theorem mem_marksOf_cell (h : e.Consistent) {p q : Position} :
    q ∈ e.marksOf (.cell p) ↔ q = p ∨ (TransGen e.graph.Reads p q ∧ TransGen e.graph.Reads q p) := by
  show q ∈ ((e.graph.cycleMembers e.workbook p).insert p).toList ↔ _
  rw [Std.TreeSet.mem_toList, mem_insert_iff]
  by_cases hq : q = p
  · simp [hq]
  · rw [mem_cycleMembers h.symmetric h.wellFormed (fun r => isSome_of_precedents h) hq]

/-- With a cell that is dirty or marked, the cells on a cycle with it are so too. -/
theorem marks_back (h : e.Consistent) (hunread : ∀ p, p ∉ e.unread) (scope : PassScope) {x y : Position}
    (hx : x ∈ (e.prepared scope).dirty) (hreads : e.graph.Reads y x) (hback : TransGen e.graph.Reads x y) :
    y ∈ (e.prepared scope).dirty := by
  have hm := markedBy_prepared e scope
  cases scope with
  | dirty => exact marks_closed h hunread (by simp) hx hreads
  | full => exact marks_closed h hunread (by simp) hx hreads
  | cell p =>
    have hy := isSome_of_reads h hreads
    rw [hm.mem_dirty] at hx ⊢
    rcases hx with hx | ⟨hx, -⟩
    · exact Or.inl (h.closed x hx (hunread x) y hreads)
    · refine Or.inr ⟨(mem_marksOf_cell h).mpr ?_, hy⟩
      rcases (mem_marksOf_cell h).mp hx with rfl | ⟨hpx, hxp⟩
      · exact Or.inr ⟨hback, TransGen.single hreads⟩
      · exact Or.inr ⟨hpx.trans hback, TransGen.head hreads hxp⟩

/-- A pass over a single cell computes all cells on a cycle with it. -/
theorem clean_of_marked (h : e.Consistent) {p : Position} {e' : Engine}
    (hrest : e' = { e with
      workbook := (e.pass (.cell p)).workbook, dirty := (e.pass (.cell p)).dirty, changes := e'.changes,
      mailbox := e'.mailbox }) {k : Position} (hk : k ∈ e.marksOf (.cell p)) : k ∉ e'.dirty := by
  obtain ⟨hpassed, -, hclean⟩ := passed_pass h (.cell p) e' hrest
  have hm := markedBy_prepared e (.cell p)
  have hp : p ∉ e'.dirty := hclean p (List.mem_singleton.mpr rfl)
  rcases (mem_marksOf_cell h).mp hk with rfl | ⟨hpk, hkp⟩
  · exact hp
  -- Along the way from the cell, everything has been computed.
  have hwalk : ∀ a, TransGen e.graph.Reads a k → a ∈ (e.pass (.cell p)).computed →
      ReflTransGen e.graph.Reads p a → k ∉ e'.dirty := by
    intro a ha
    induction ha using TransGen.head_induction_on with
    | single hreads =>
      intro hc _
      exact hpassed.clean_of_reads hc (hm.graph_eq ▸ hreads)
    | @head a c hreads hrest ih =>
      intro hc hpa
      have hpc : TransGen e.graph.Reads p c := TransGen.tail' hpa hreads
      have hcp : TransGen e.graph.Reads c p := hrest.trans hkp
      refine ih ?_ hpc.to_reflTransGen
      have hnot := hpassed.clean_of_reads hc (hm.graph_eq ▸ hreads)
      rw [hpassed.mem_dirty] at hnot
      by_contra hnew
      refine hnot ⟨(hm.mem_dirty c).mpr (Or.inr ⟨(mem_marksOf_cell h).mpr (Or.inr ⟨hpc, hcp⟩), ?_⟩), hnew⟩
      obtain ⟨d, hcd, -⟩ := TransGen.head'_iff.mp hcp
      exact isSome_of_reads h hcd
  refine hwalk p hpk ?_ ReflTransGen.refl
  rw [hpassed.mem_dirty] at hp
  by_contra hnew
  refine hp ⟨(hm.mem_dirty p).mpr (Or.inr ⟨(mem_marksOf_cell h).mpr (Or.inl rfl), ?_⟩), hnew⟩
  obtain ⟨d, hpd, -⟩ := TransGen.head'_iff.mp hpk
  exact isSome_of_reads h hpd

/-- **A pass of any scope keeps the invariant.** -/
theorem consistent_pass (h : e.Consistent) (hunread : ∀ p, p ∉ e.unread) (scope : PassScope) {e' : Engine}
    (hrest : e' = { e with
      workbook := (e.pass scope).workbook, dirty := (e.pass scope).dirty, changes := e'.changes,
      mailbox := e'.mailbox }) : e'.Consistent := by
  obtain ⟨hpassed, -, -⟩ := passed_pass h scope e' hrest
  have hm := markedBy_prepared e scope
  refine hpassed.consistent (orderly_prepared h scope) (linkedAt_prepared h scope) ?_ ?_ ?_
  · rw [hm.unread_eq]
    exact hunread
  · exact flagged_of_markedBy hm fun p c hc hflag => Or.inl (h.flagged p c hc hflag)
  · intro k hk reader hreads
    rw [hm.graph_eq] at hreads
    cases scope with
    | dirty => exact absurd hk (clean_pass h (by simp) hrest k)
    | full => exact absurd hk (clean_pass h (by simp) hrest k)
    | cell p =>
      rcases (hm.mem_dirty k).mp ((hpassed.mem_dirty k).mp hk).1 with hold | ⟨hmark, -⟩
      · exact (hm.mem_dirty reader).mpr (Or.inl (h.closed k hold (hunread k) reader hreads))
      · exact absurd hk (clean_of_marked h hrest hmark)

end Consistent

/-! ### Recalculations -/

section Recompute

variable {e : Engine} (h : e.Consistent)
include h

/-- **A recalculation keeps the invariant.** -/
theorem consistent_recompute (scope : PassScope) : (e.recompute scope).1.Consistent := by
  obtain ⟨hread, -, hunread⟩ := readAllLoaded_spec h
  exact consistent_pass hread hunread scope rfl

/-- **A recalculation keeps that every cycle is caught.** -/
theorem caught_recompute (hcaught : e.Caught) (scope : PassScope) : (e.recompute scope).1.Caught := by
  obtain ⟨hread, hchange, hunread⟩ := readAllLoaded_spec h
  have hm := markedBy_prepared e.readAllLoaded scope
  obtain ⟨hpassed, -, -⟩ :=
    passed_pass hread scope (e.recompute scope).1 rfl
  refine hpassed.caught hread hunread hm (caught_of_change hchange h hread hcaught) ?_
  rw [hm.graph_eq]
  exact fun x hx y hreads hback => marks_back hread hunread scope hx hreads hback

/-- **After a recalculation of all dirty cells or all cells no cell is dirty.** -/
theorem clean_recompute {scope : PassScope} (hscope : ∀ p, scope ≠ .cell p) (p : Position) :
    p ∉ (e.recompute scope).1.dirty :=
  clean_pass (readAllLoaded_spec h).1 hscope rfl p

/-- **A recalculation keeps that the cycles by themselves are caught as a whole.** -/
theorem ringsCaught_recompute (hrings : e.RingsCaught) (scope : PassScope) :
    (e.recompute scope).1.RingsCaught := by
  obtain ⟨hread, hchange, hunread⟩ := readAllLoaded_spec h
  have hm := markedBy_prepared e.readAllLoaded scope
  obtain ⟨hpassed, hleads, -⟩ := passed_pass hread scope (e.recompute scope).1 rfl
  rw [← surroundings_prepared] at hleads
  refine hpassed.ringsCaught (orderly_prepared hread scope) (linkedAt_prepared hread scope) hleads ?_ hread
    hunread hm (ringsCaught_of_change hchange h hread hrings)
  rw [hm.graph_eq]
  exact fun x hx y hreads hback => marks_back hread hunread scope hx hreads hback

/-- **A recalculation of all dirty cells or all cells keeps that what is not stale is settled**, on a grid
with room. -/
theorem settled_recompute (hroomy : e.settings.IsRoomy) (hsettled : e.Settled) {scope : PassScope}
    (hscope : ∀ p, scope ≠ .cell p) : (e.recompute scope).1.Settled := by
  obtain ⟨hread, hchange, hunread⟩ := readAllLoaded_spec h
  have hm := markedBy_prepared e.readAllLoaded scope
  obtain ⟨hpassed, -, -⟩ :=
    passed_pass hread scope (e.recompute scope).1 rfl
  refine hpassed.settled hread hunread (orderly_prepared hread scope) (linkedAt_prepared hread scope) hm
    (settled_of_change hchange h hread hroomy hsettled) ?_
  rw [hm.graph_eq]
  exact fun x hx y hreads => marks_closed hread hunread hscope hx hreads

/-- **A recalculation keeps that values are due**, on a grid with room. -/
theorem due_recompute {E : ErrorValue.Likeness} (hroomy : e.settings.IsRoomy) (hdue : e.Due E)
    (scope : PassScope) : (e.recompute scope).1.Due E := by
  obtain ⟨hread, -, hunread⟩ := readAllLoaded_spec h
  have hm := markedBy_prepared e.readAllLoaded scope
  obtain ⟨hpassed, hleads, -⟩ := passed_pass hread scope (e.recompute scope).1 rfl
  rw [← surroundings_prepared] at hleads
  refine hpassed.due (orderly_prepared hread scope) (linkedAt_prepared hread scope) hleads ?_ hread hm
    (due_of_change (faithful_readAllLoaded h) h hread hroomy hdue) hunread
  rw [hm.graph_eq]
  exact fun x hx y hreads hback => marks_back hread hunread scope hx hreads hback

/-- **A recalculation of all dirty cells or all cells keeps that values off all cycles are due**, on a grid
with room. -/
theorem dueOffCycles_recompute {E : ErrorValue.Likeness} (hroomy : e.settings.IsRoomy)
    (hdue : e.DueOffCycles E) {scope : PassScope} (hscope : ∀ p, scope ≠ .cell p) :
    (e.recompute scope).1.DueOffCycles E := by
  obtain ⟨hread, -, hunread⟩ := readAllLoaded_spec h
  have hm := markedBy_prepared e.readAllLoaded scope
  obtain ⟨hpassed, -, -⟩ := passed_pass hread scope (e.recompute scope).1 rfl
  refine hpassed.dueOffCycles hread hunread hm
    (dueOffCycles_of_change (faithful_readAllLoaded h) h hread hroomy hdue) ?_
  rw [hm.graph_eq]
  exact fun x hx y hreads => marks_closed hread hunread hscope hx hreads

theorem settings_recompute (scope : PassScope) :
    (e.recompute scope).1.settings = e.settings ∧ (e.recompute scope).1.library = e.library := by
  obtain ⟨-, hchange, -⟩ := readAllLoaded_spec h
  exact ⟨hchange.settings_eq, hchange.library_eq⟩

end Recompute

/-! ### What follows an edit -/

/-- What one call after the other keeps, single passes aside: the invariant, that every cycle is caught,
and, on a grid with room, that what is not stale is settled. -/
structure Follows (e e' : Engine) : Prop where
  consistent : e'.Consistent
  settings_eq : e'.settings = e.settings
  library_eq : e'.library = e.library
  caught : e.Caught → e'.Caught
  rings : e.RingsCaught → e'.RingsCaught
  settled : e.settings.IsRoomy → e.Settled → e'.Settled

/-- What is kept beside that, up to errors that count as the same and on a grid with room: that values are
due. -/
structure FollowsUpTo (E : ErrorValue.Likeness) (e e' : Engine) : Prop extends Follows e e' where
  due : e.settings.IsRoomy → e.Due E → e'.Due E
  dueOffCycles : e.settings.IsRoomy → e.DueOffCycles E → e'.DueOffCycles E

section Follows

variable {E : ErrorValue.Likeness}

theorem Follows.refl {e : Engine} (h : e.Consistent) : Follows e e :=
  ⟨h, rfl, rfl, fun h => h, fun h => h, fun _ h => h⟩

theorem FollowsUpTo.refl {e : Engine} (h : e.Consistent) : FollowsUpTo E e e :=
  ⟨Follows.refl h, fun _ h => h, fun _ h => h⟩

theorem Follows.trans {e e' e'' : Engine} (h : Follows e e') (h' : Follows e' e'') : Follows e e'' where
  consistent := h'.consistent
  settings_eq := h'.settings_eq.trans h.settings_eq
  library_eq := h'.library_eq.trans h.library_eq
  caught := fun hc => h'.caught (h.caught hc)
  rings := fun hr => h'.rings (h.rings hr)
  settled := fun hroomy hs => h'.settled (h.settings_eq ▸ hroomy) (h.settled hroomy hs)

theorem FollowsUpTo.trans {e e' e'' : Engine} (h : FollowsUpTo E e e') (h' : FollowsUpTo E e' e'') :
    FollowsUpTo E e e'' where
  toFollows := h.toFollows.trans h'.toFollows
  due := fun hroomy hd => h'.due (h.settings_eq ▸ hroomy) (h.due hroomy hd)
  dueOffCycles := fun hroomy hd => h'.dueOffCycles (h.settings_eq ▸ hroomy) (h.dueOffCycles hroomy hd)

/-- **A faithful change keeps what is known between two calls.** -/
theorem Faithful.follows {image : Position → Option Position} {e e' : Engine} (h : Faithful E image e e')
    (he : e.Consistent) (he' : e'.Consistent) : FollowsUpTo E e e' where
  consistent := he'
  settings_eq := h.settings_eq
  library_eq := h.library_eq
  caught := caught_of_change h.toChange he he'
  rings := ringsCaught_of_change h.toChange he he'
  settled := fun hroomy => settled_of_change h.toChange he he' hroomy
  due := fun hroomy => due_of_change h he he' hroomy
  dueOffCycles := fun hroomy => dueOffCycles_of_change h he he' hroomy

theorem follows_recompute {e : Engine} (h : e.Consistent) {scope : PassScope}
    (hscope : ∀ p, scope ≠ .cell p) : Follows e (e.recompute scope).1 where
  consistent := consistent_recompute h scope
  settings_eq := (settings_recompute h scope).1
  library_eq := (settings_recompute h scope).2
  caught := fun hcaught => caught_recompute h hcaught scope
  rings := fun hrings => ringsCaught_recompute h hrings scope
  settled := fun hroomy hsettled => settled_recompute h hroomy hsettled hscope

theorem followsUpTo_recompute {e : Engine} (h : e.Consistent) {scope : PassScope}
    (hscope : ∀ p, scope ≠ .cell p) : FollowsUpTo E e (e.recompute scope).1 where
  toFollows := follows_recompute h hscope
  due := fun hroomy hdue => due_recompute h hroomy hdue scope
  dueOffCycles := fun hroomy hdue => dueOffCycles_recompute h hroomy hdue hscope

end Follows

end Engine

end Spreadsheet
