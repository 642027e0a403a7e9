import Spreadsheet.Proofs.Due
import Spreadsheet.Proofs.PassRings

/-!
# Passing: what a pass does to the engine

`Engine.Passed` says that an engine is what a pass has left of another, in which all loaded formulas had
been read and the cells to be computed were marked. The pass keeps what is known between two calls:

* `Passed.consistent` — the invariant of the engine;
* `Passed.caught` — that there is a circular error on every cycle;
* `Passed.ringsCaught` — that a cycle that shares no cell with another one has nothing else;
* `Passed.settled` — that what is not stale is settled, if the dirty cells were closed under readers;
* `Passed.due` — that each value is the one that is due, where it can be told which. Such a value does not
  change (`Passed.value_matches`).

The scopes differ in which cells they mark and in which order they compute them. `Engine.prepared` is the
engine with the marks that a scope sets, and `passed_pass` says for all scopes that the pass leads from
there.
-/

namespace Spreadsheet

open DependencyGraph Relation

namespace Engine

/-- The state in which a pass begins. -/
def passState (e : Engine) (waiting : PositionSet) : Pass :=
  { workbook := e.workbook, dirty := e.dirty, waiting }

/-- One engine is what a pass has left of the other. -/
structure Passed (e : Engine) (s : Pass) (e' : Engine) : Prop where
  rest_eq : e' = { e with
    workbook := s.workbook, dirty := s.dirty, changes := e'.changes, mailbox := e'.mailbox }
  sound : Pass.Sound e.surroundings e.workbook e.dirty s
  ended : s.stack = []

/-! ### The beginning of a pass -/

/-- An engine in which everything is linked is what a pass can rely on. -/
theorem ground_surroundings {e : Engine} (h : e.Orderly) (hlinked : ∀ p, e.LinkedAt p) :
    Pass.Ground e.surroundings e.workbook e.dirty := by
  refine ⟨h.wellFormed, h.stored, fun p q hreads => ?_, fun p x hstatic hx => ?_⟩
  · obtain ⟨a, ha, -⟩ := (reads_iff_wouldRead (hlinked p)).mp hreads
    have hkind := (hlinked p).kind_eq
    cases hx : e.workbook.tree? p with
    | none =>
      unfold linkAt at ha
      rw [hx] at ha
      exact absurd ha List.not_mem_nil
    | some x =>
      have hat := linkAt_of_tree hx
      rw [hat] at ha hkind
      refine ⟨(staticKind?_eq_linkKind? hx).trans ?_, rfl⟩
      rw [hkind]
      unfold linkOf at ha ⊢
      cases hr : resolveAll e.scope p.sheet x.references with
      | ok areas => rfl
      | error problem =>
        rw [hr] at ha
        exact absurd ha List.not_mem_nil
  · exact resolve_of_linked (hlinked p) hx ((staticKind?_eq_linkKind? hx).symm.trans hstatic)

/-- The invariant of a pass holds at its beginning. -/
theorem sound_passState {e : Engine} (h : e.workbook.WellFormed) (waiting : PositionSet) :
    Pass.Sound e.surroundings e.workbook e.dirty (e.passState waiting) := by
  refine ⟨?_, Or.inl rfl⟩
  constructor
  case wellFormed => exact h
  case frame => exact Workbook.SameFrame.refl _
  case dirty_iff =>
    intro q
    show q ∈ e.dirty ↔ q ∈ e.dirty ∧ q ∉ ([] : List Position)
    simp
  case computed_mem => exact fun q hq => absurd hq List.not_mem_nil
  case circular_mem => exact fun q hq => absurd hq List.not_mem_nil
  case stacked_dirty => exact fun q hq => absurd hq List.not_mem_nil
  case nodup => exact List.nodup_nil
  case chain => exact List.isChain_nil
  case awaited => exact fun f hf => absurd hf List.not_mem_nil
  case onCycle => exact fun f hf => absurd hf List.not_mem_nil
  case idle => exact fun _ _ _ => rfl
  case begun => exact fun q hq => absurd hq List.not_mem_nil
  case finished => exact fun q hq => absurd hq List.not_mem_nil
  case kept => exact fun q hq => absurd hq List.not_mem_nil
  case recorded => exact fun q hq => absurd hq List.not_mem_nil
  case marked => exact fun q hq => absurd hq List.not_mem_nil
  case computed_eq => exact fun q hq => absurd hq List.not_mem_nil
  case behind => exact fun q hq => absurd hq List.not_mem_nil
  case acyclic =>
    intro p hcycle
    obtain ⟨q, hfirst, -⟩ := TransGen.head'_iff.mp hcycle
    exact absurd hfirst.2.1 List.not_mem_nil

/-! ### The end of a pass -/

namespace Passed

variable {e e' : Engine} {s : Pass}

theorem settings_eq (h : Passed e s e') : e'.settings = e.settings := by rw [h.rest_eq]

theorem library_eq (h : Passed e s e') : e'.library = e.library := by rw [h.rest_eq]

theorem names_eq (h : Passed e s e') : e'.names = e.names := by rw [h.rest_eq]

theorem graph_eq (h : Passed e s e') : e'.graph = e.graph := by rw [h.rest_eq]

theorem unread_eq (h : Passed e s e') : e'.unread = e.unread := by rw [h.rest_eq]

theorem workbook_eq (h : Passed e s e') : e'.workbook = s.workbook := by rw [h.rest_eq]

theorem dirty_eq (h : Passed e s e') : e'.dirty = s.dirty := by rw [h.rest_eq]

theorem frame (h : Passed e s e') : e'.workbook.SameFrame e.workbook := by
  rw [h.workbook_eq]
  exact h.sound.valid.frame

theorem scope_eq (h : Passed e s e') : e'.scope = e.scope := by
  unfold scope
  rw [h.names_eq, h.settings_eq]
  exact h.frame.scope_eq e.names e.settings

theorem context_eq (h : Passed e s e') : e'.context = Pass.contextOf e.surroundings s.workbook := by
  unfold context
  rw [h.names_eq, h.settings_eq, h.library_eq, h.workbook_eq]
  rfl

theorem mem_dirty (h : Passed e s e') (q : Position) : q ∈ e'.dirty ↔ q ∈ e.dirty ∧ q ∉ s.computed := by
  rw [h.dirty_eq]
  exact h.sound.valid.dirty_iff q

/-- A cell that the pass has not computed is as it was. -/
theorem cell_eq (h : Passed e s e') {q : Position} (hq : q ∉ s.computed) :
    e'.workbook.cell? q = e.workbook.cell? q := by
  rw [h.workbook_eq]
  apply h.sound.valid.idle q hq
  rw [Pass.stacked_eq_nil h.ended]
  exact List.not_mem_nil

theorem cell_finished (h : Passed e s e') {q : Position} (hq : q ∈ s.computed) :
    ∃ v, e'.workbook.cell? q = (e.workbook.cell? q).map (fun c => c.finish v) ∧
      ∀ c u, e.workbook.cell? q = some c → c.content = .constant u → v = u := by
  rw [h.workbook_eq]
  exact h.sound.valid.finished q hq

theorem isSome_cell? (h : Passed e s e') (q : Position) :
    (e'.workbook.cell? q).isSome = (e.workbook.cell? q).isSome := by
  rw [h.workbook_eq]
  exact h.sound.valid.isSome_cell? q

theorem formula_eq (h : Passed e s e') (q : Position) :
    e'.workbook.tree? q = e.workbook.tree? q ∧ e'.workbook.staticKind? q = e.workbook.staticKind? q := by
  rw [h.workbook_eq]
  exact h.sound.valid.formula_eq q

theorem value_eq (h : Passed e s e') {q : Position} (hq : q ∉ s.computed) :
    e'.workbook.value q = e.workbook.value q := by
  rw [Workbook.value_eq, h.cell_eq hq, ← Workbook.value_eq]

theorem linkKind?_eq (h : Passed e s e') (q : Position) :
    e'.workbook.linkKind? q = e.workbook.linkKind? q := by
  unfold Workbook.linkKind?
  by_cases hq : q ∈ s.computed
  · obtain ⟨v, hv, -⟩ := h.cell_finished hq
    rw [hv]
    cases e.workbook.cell? q <;> rfl
  · rw [h.cell_eq hq]

theorem linkAt_eq (h : Passed e s e') (q : Position) : e'.linkAt q = e.linkAt q := by
  unfold linkAt
  rw [(h.formula_eq q).1, h.scope_eq]

theorem linkedAt (h : Passed e s e') {q : Position} (hq : e.LinkedAt q) : e'.LinkedAt q := by
  constructor
  · rw [h.graph_eq, hq.link_eq, h.linkAt_eq]
  · rw [h.linkKind?_eq, hq.kind_eq, h.linkAt_eq]

/-- What the pass has computed reads no cell that is dirty after it. -/
theorem clean_of_reads (h : Passed e s e') {q z : Position} (hq : q ∈ s.computed)
    (hreads : e.graph.Reads q z) : z ∉ e'.dirty := by
  intro hz
  rw [h.dirty_eq] at hz
  have hstacked := (h.sound.valid.behind q hq z hreads hz).1
  rw [Pass.stacked_eq_nil h.ended] at hstacked
  exact List.not_mem_nil hstacked

theorem orderly (h : Passed e s e') (he : e.Orderly) (hunread : ∀ p, p ∉ e.unread) : e'.Orderly := by
  refine he.of_sameFrame h.settings_eq h.names_eq h.frame (h.workbook_eq ▸ h.sound.valid.wellFormed)
    (h.graph_eq ▸ he.symmetric) ?cells ?stored ?unread ?marked
  case cells =>
    intro p c' hc'
    by_cases hp : p ∈ s.computed
    · obtain ⟨v, hv, hconstant⟩ := h.cell_finished hp
      rw [hv] at hc'
      obtain ⟨c, hc, rfl⟩ := Option.map_eq_some_iff.mp hc'
      exact (he.cells p c hc).finish fun u hu => hconstant c u hc hu
    · rw [h.cell_eq hp] at hc'
      exact he.cells p c' hc'
  case stored =>
    intro p hp
    rw [h.isSome_cell?]
    exact he.stored p ((h.mem_dirty p).mp hp).1
  case unread =>
    intro p hp
    rw [h.unread_eq] at hp
    exact absurd hp (hunread p)
  case marked =>
    intro hroomy p c' hc' hp
    obtain ⟨hD, hnew⟩ := (h.mem_dirty p).mp hp
    rw [h.cell_eq hnew] at hc'
    exact he.marked hroomy p c' hc' hD

/-- **A pass keeps the invariant**, if the readers of what it leaves dirty were dirty before. -/
theorem consistent (h : Passed e s e') (he : e.Orderly) (hlinked : ∀ p, e.LinkedAt p)
    (hunread : ∀ p, p ∉ e.unread)
    (hflagged : ∀ p c, e.workbook.cell? p = some c → c.flags.dirty = true → p ∈ e.dirty)
    (hclosed : ∀ k ∈ e'.dirty, ∀ reader, e.graph.Reads reader k → reader ∈ e.dirty) : e'.Consistent := by
  refine ⟨h.orderly he hunread, fun p c' hc' hflag => ?_, fun p => h.linkedAt (hlinked p), ?_⟩
  · rw [h.mem_dirty]
    by_cases hp : p ∈ s.computed
    · obtain ⟨v, hv, -⟩ := h.cell_finished hp
      rw [hv] at hc'
      obtain ⟨c, -, rfl⟩ := Option.map_eq_some_iff.mp hc'
      rw [Cell.dirty_finish] at hflag
      cases hflag
    · rw [h.cell_eq hp] at hc'
      exact ⟨hflagged p c' hc' hflag, hp⟩
  intro k hk _ reader hreads
  rw [h.graph_eq] at hreads
  refine (h.mem_dirty reader).mpr ⟨hclosed k hk reader hreads, fun hc => ?_⟩
  exact h.clean_of_reads hc hreads hk

/-! ### From the engine before the marks -/

variable {e₀ : Engine} {P : Position → Prop}

/-- In an engine without unread formulas, only the dirty cells are stale. -/
theorem mem_dirty_of_stale (he₀ : e₀.Consistent) (hunread : ∀ p, p ∉ e₀.unread) {p : Position}
    (hp : e₀.Stale p) : p ∈ e₀.dirty := by
  obtain ⟨k, hk, hwalk⟩ := hp
  induction hwalk using ReflTransGen.head_induction_on with
  | refl => exact hk
  | head hreads _ ih => exact he₀.closed _ ih (hunread _) _ hreads

/-- **A pass keeps that every cycle is caught**, if with a cell it computes the cells that lie on a cycle
with it. -/
theorem caught (h : Passed e s e') (he₀ : e₀.Consistent) (hunread : ∀ p, p ∉ e₀.unread)
    (hmarked : MarkedBy P e₀ e) (hcaught : e₀.Caught)
    (hback : ∀ x ∈ e.dirty, ∀ y, e.graph.Reads y x → TransGen e.graph.Reads x y → y ∈ e.dirty) :
    e'.Caught := by
  have hreads : ∀ r q, e'.OpenRead r q → e.graph.Reads r q := by
    intro r q hrq
    rw [← h.graph_eq]
    exact hrq.1
  -- A formula on such a cycle that was dirty has been computed, and is no circular error.
  have hcomputed : ∀ r q, e'.OpenRead r q → r ∈ e.dirty → r ∈ s.computed ∧ r ∉ s.circular := by
    intro r q hrq hr
    have hc : r ∈ s.computed := by
      by_contra hnot
      exact hrq.2.1 (stale_of_mem ((h.mem_dirty r).mpr ⟨hr, hnot⟩))
    refine ⟨hc, fun hcircular => hrq.2.2 ?_⟩
    rw [h.workbook_eq]
    exact ⟨_, (h.sound.valid.marked r hcircular).2, rfl⟩
  intro p hcycle
  by_cases hex : ∃ x ∈ e.dirty, TransGen e'.OpenRead x x
  · -- Then all cells on the cycle were computed, against `Valid.acyclic`.
    obtain ⟨x, hx, hround⟩ := hex
    have hwalk : ∀ a, TransGen e'.OpenRead a x → TransGen e.graph.Reads x a → a ∈ e.dirty ∧
        TransGen (fun r q => e.graph.Reads r q ∧ r ∈ s.computed ∧ r ∉ s.circular) a x := by
      intro a ha
      induction ha using TransGen.head_induction_on with
      | single hopen =>
        intro hxa
        have hD := hback x hx _ (hreads _ _ hopen) hxa
        exact ⟨hD, TransGen.single ⟨hreads _ _ hopen, hcomputed _ _ hopen hD⟩⟩
      | @head a c hopen hrest ih =>
        intro hxa
        obtain ⟨hc, hway⟩ := ih (hxa.tail (hreads _ _ hopen))
        have hca : TransGen e.graph.Reads c a := (TransGen.mono hreads _ _ hrest).trans hxa
        have hD := hback c hc _ (hreads _ _ hopen) hca
        exact ⟨hD, TransGen.head ⟨hreads _ _ hopen, hcomputed _ _ hopen hD⟩ hway⟩
    exact h.sound.valid.acyclic x (hwalk x hround (TransGen.mono hreads _ _ hround)).2
  · -- Otherwise the pass has not touched the cycle.
    have hopen : ∀ r q, TransGen e'.OpenRead r r → e'.OpenRead r q → e₀.OpenRead r q := by
      intro r q hround hrq
      have hnot : r ∉ e.dirty := fun hr => hex ⟨r, hr, hround⟩
      refine ⟨?_, fun hs => hnot ?_, fun hv => hrq.2.2 ?_⟩
      · rw [← hmarked.graph_eq]
        exact hreads r q hrq
      · exact (hmarked.mem_dirty r).mpr (Or.inl (mem_dirty_of_stale he₀ hunread hs))
      · have hc : r ∉ s.computed := fun hc => hnot (h.sound.valid.computed_mem r hc)
        rw [h.value_eq hc, Workbook.value_congr (hmarked.core?_eq r)]
        exact hv
    have hwalk : ∀ a, TransGen e'.OpenRead a p → TransGen e'.OpenRead p a → TransGen e₀.OpenRead a p := by
      intro a ha
      induction ha using TransGen.head_induction_on with
      | single hlast => exact fun hpa => TransGen.single (hopen _ _ (TransGen.head hlast hpa) hlast)
      | head hfirst hrest ih =>
        intro hpa
        exact TransGen.head (hopen _ _ (TransGen.head hfirst (hrest.trans hpa)) hfirst)
          (ih (hpa.tail hfirst))
    exact hcaught p (hwalk p hcycle hcycle)

section Rings

variable {waiting : PositionSet} (h : Passed e s e') (he : e.Orderly) (hlinked : ∀ p, e.LinkedAt p)
  (hleads : Pass.Leads e.surroundings (e.passState waiting) s)
  (hback : ∀ x ∈ e.dirty, ∀ y, e.graph.Reads y x → TransGen e.graph.Reads x y → y ∈ e.dirty)
include h he hlinked hleads hback

/-- A computed cell on a cycle that shares no cell with another one has become a circular error, if with a
cell the pass computes the cells that lie on a cycle with it. -/
theorem circular_of_onRing {p : Position} (hp : p ∈ s.computed) (hring : e.graph.OnRing p) :
    p ∈ s.circular := by
  have hD := h.sound.valid.computed_mem p hp
  -- The whole cycle is computed with the cell.
  have hall : ∀ q, TransGen e.graph.Reads q p → TransGen e.graph.Reads p q → q ∈ e.dirty := by
    intro q hqp
    induction hqp using TransGen.head_induction_on with
    | single hreads => exact fun hpq => hback p hD _ hreads hpq
    | @head q r hreads hrest ih =>
      intro hpq
      exact hback r (ih (hpq.tail hreads)) q hreads (hrest.trans hpq)
  exact Pass.circular_of_onRing (sound_passState he.wellFormed waiting) (ground_surroundings he hlinked) rfl rfl
    hleads h.ended hp hring fun q hq => hall q hq.2 hq.1

/-- **A pass keeps that the cycles by themselves are caught as a whole**, if with a cell it computes the
cells that lie on a cycle with it. -/
theorem ringsCaught (he₀ : e₀.Consistent) (hunread : ∀ p, p ∉ e₀.unread) (hmarked : MarkedBy P e₀ e)
    (hrings : e₀.RingsCaught) : e'.RingsCaught := by
  intro p hp hring
  rw [h.graph_eq] at hring
  by_cases hD : p ∈ e.dirty
  · have hc : p ∈ s.computed := by
      by_contra hnot
      exact hp (stale_of_mem ((h.mem_dirty p).mpr ⟨hD, hnot⟩))
    have hcircular := h.circular_of_onRing he hlinked hleads hback hc hring
    rw [h.workbook_eq]
    exact ⟨_, (h.sound.valid.marked p hcircular).2, rfl⟩
  · have hold : ¬e₀.Stale p := fun hs =>
      hD ((hmarked.mem_dirty p).mpr (Or.inl (mem_dirty_of_stale he₀ hunread hs)))
    rw [h.value_eq fun hc => hD (h.sound.valid.computed_mem p hc), Workbook.value_congr (hmarked.core?_eq p)]
    rw [hmarked.graph_eq] at hring
    exact hrings p hold hring

end Rings

/-- A computed cell is settled after the pass. -/
theorem isSettled_of_computed (h : Passed e s e') (hground : Pass.Ground e.surroundings e.workbook e.dirty)
    {p : Position} (hp : p ∈ s.computed) : e'.IsSettled p := by
  by_cases hcircular : p ∈ s.circular
  · obtain ⟨hcycle, hvalue⟩ := h.sound.valid.marked p hcircular
    obtain ⟨z, hreads, -⟩ := TransGen.head'_iff.mp hcycle
    constructor
    · intro k hk
      rw [(h.formula_eq p).2, (hground.reading p z hreads).1] at hk
      cases hk
    · intro x _ _
      left
      rw [h.workbook_eq, h.graph_eq]
      exact ⟨⟨_, hvalue, rfl⟩, hcycle⟩
  · obtain ⟨hstatic, hevaluated⟩ := h.sound.valid.evaluated p hp hcircular
    constructor
    · rw [h.workbook_eq]
      exact hstatic
    · rw [h.context_eq, h.workbook_eq]
      exact fun x hnone hx => Or.inr (hevaluated x hnone hx)

/-- **A pass keeps that what is not stale is settled**, if the cells that it computes are closed under
readers. -/
theorem settled (h : Passed e s e') (he₀ : e₀.Consistent) (hunread : ∀ p, p ∉ e₀.unread)
    (he : e.Orderly) (hlinked : ∀ p, e.LinkedAt p) (hmarked : MarkedBy P e₀ e) (hsettled : e₀.Settled)
    (hclosed : ∀ x ∈ e.dirty, ∀ y, e.graph.Reads y x → y ∈ e.dirty) : e'.Settled := by
  have hground := ground_surroundings he hlinked
  intro p hp
  by_cases hc : p ∈ s.computed
  · exact h.isSettled_of_computed hground hc
  have hnot : p ∉ e.dirty := fun hD => hp (stale_of_mem ((h.mem_dirty p).mpr ⟨hD, hc⟩))
  have hold : e₀.IsSettled p := by
    apply hsettled
    intro hs
    exact hnot ((hmarked.mem_dirty p).mpr (Or.inl (mem_dirty_of_stale he₀ hunread hs)))
  have hvalue : ∀ q, q ∉ e.dirty → e'.workbook.value q = e₀.workbook.value q := by
    intro q hq
    rw [h.value_eq fun hc => hq (h.sound.valid.computed_mem q hc),
      Workbook.value_congr (hmarked.core?_eq q)]
  have hstaticKind : e'.workbook.staticKind? p = e₀.workbook.staticKind? p := by
    rw [(h.formula_eq p).2]
    exact Workbook.staticKind?_congr (hmarked.core?_eq p) (hmarked.linkKind?_eq p)
  have htree : e'.workbook.tree? p = e₀.workbook.tree? p := by
    rw [(h.formula_eq p).1, hmarked.tree?_eq]
  constructor
  · intro k hk
    rw [hstaticKind] at hk
    rw [hvalue p hnot]
    exact hold.static k hk
  · intro x hnone hx
    have hnone₀ := hstaticKind ▸ hnone
    have hx₀ := htree ▸ hx
    rw [hvalue p hnot]
    rcases hold.evaluated x hnone₀ hx₀ with ⟨hcircular, hcycle⟩ | hagrees
    · refine Or.inl ⟨hcircular, ?_⟩
      rw [h.graph_eq, hmarked.graph_eq]
      exact hcycle
    · right
      refine hagrees.trans (Value.matches_sameKind.mp (evaluate_matches
        (matchOn_of_linked (he₀.linked p) hx₀ ((staticKind?_eq_linkKind? hx₀).symm.trans hnone₀) ?_ ?_ ?_ ?_)))
      · rw [h.settings_eq, hmarked.settings_eq]
      · rw [h.library_eq, hmarked.library_eq]
      · intro entry _ a hresolve
        rw [h.scope_eq, hmarked.scope_eq]
        exact hresolve
      · refine fun q hq => ⟨?_, Value.Matches.of_eq (hvalue q fun hD => hnot ?_).symm, fun a b _ => ?_⟩
        · show e₀.workbook.isObscured q = e'.workbook.isObscured q
          rw [h.frame.isObscured_eq, hmarked.frame.isObscured_eq]
        · exact hclosed q hD p (hmarked.graph_eq.symm ▸ hq)
        · exact EvaluationContext.sameKind_propagated _ _ a b q q

/-! ### The values that are due -/

section Due

variable {E : ErrorValue.Likeness}

theorem surroundings_eq (h : Passed e s e') : e'.surroundings = e.surroundings := by
  unfold surroundings
  rw [h.names_eq, h.graph_eq, h.settings_eq, h.library_eq]

/-- A pass changes values only. -/
theorem sameContents (h : Passed e s e') (hmarked : MarkedBy P e₀ e) : SameContents E e₀ e' where
  locale_eq := by rw [h.settings_eq, hmarked.settings_eq]
  library_eq := by rw [h.library_eq, hmarked.library_eq]
  scope_eq := by rw [h.scope_eq, hmarked.scope_eq]
  obscured_eq := by rw [h.frame.isObscured_eq, hmarked.frame.isObscured_eq]
  content := by
    intro p
    rw [h.workbook_eq, h.sound.valid.content?_eq, hmarked.content?_eq]
    exact Workbook.rel_content? _ p
  labels := by
    intro p a b hab
    show E.r (a.propagated ((e₀.workbook.sheet? p.sheet).map Sheet.name) p.col p.row)
      (b.propagated ((e'.workbook.sheet? p.sheet).map Sheet.name) p.col p.row)
    rw [(h.frame.trans hmarked.frame).sheetName_eq]
    exact E.propagated _ _ _ hab

/-- A computed cell off all cycles has what is computed for it. -/
theorem matches_computedValue (h : Passed e s e') {p : Position} (hp : p ∈ s.computed)
    (hcycle : ¬e'.graph.OnCycle p) :
    (e'.workbook.value p).Matches E (Pass.computedValue e'.surroundings e'.workbook p) := by
  rw [h.graph_eq] at hcycle
  rw [h.surroundings_eq, h.workbook_eq]
  exact Value.Matches.of_eq (h.sound.valid.computed_eq p hp fun hc => hcycle (h.sound.valid.marked p hc).1)

/-- **A pass keeps that values off all cycles are due**, if the cells that it computes are closed under
readers. -/
theorem dueOffCycles (h : Passed e s e') (he₀ : e₀.Consistent) (hunread : ∀ p, p ∉ e₀.unread)
    (hmarked : MarkedBy P e₀ e) (hdue : e₀.DueOffCycles E)
    (hclosed : ∀ x ∈ e.dirty, ∀ y, e.graph.Reads y x → y ∈ e.dirty) : e'.DueOffCycles E := by
  have hgraph : e'.graph = e₀.graph := h.graph_eq.trans hmarked.graph_eq
  have hvalue : ∀ q, q ∉ e.dirty → e'.workbook.value q = e₀.workbook.value q := by
    intro q hq
    rw [h.value_eq fun hc => hq (h.sound.valid.computed_mem q hc), Workbook.value_congr (hmarked.core?_eq q)]
  intro p hp hcycle
  by_cases hc : p ∈ s.computed
  · exact h.matches_computedValue hc hcycle
  have hnot : p ∉ e.dirty := fun hD => hp (stale_of_mem ((h.mem_dirty p).mpr ⟨hD, hc⟩))
  have hold : ¬e₀.Stale p := fun hs =>
    hnot ((hmarked.mem_dirty p).mpr (Or.inl (mem_dirty_of_stale he₀ hunread hs)))
  rw [hvalue p hnot]
  refine (hdue p hold (hgraph ▸ hcycle)).trans ((h.sameContents hmarked).computedValue_matches (he₀.linked p)
    (fun _ _ _ _ => Value.Matches.of_eq (hvalue p hnot).symm) fun q hq => ?_)
  exact Value.Matches.of_eq (hvalue q fun hD => hnot (hclosed q hD p (hmarked.graph_eq.symm ▸ hq))).symm

variable {waiting : PositionSet} (h : Passed e s e') (he : e.Orderly) (hlinked : ∀ p, e.LinkedAt p)
  (hleads : Pass.Leads e.surroundings (e.passState waiting) s)
  (hback : ∀ x ∈ e.dirty, ∀ y, e.graph.Reads y x → TransGen e.graph.Reads x y → y ∈ e.dirty)
include h he hlinked hleads hback

/-- A computed cell has the value that is due. -/
theorem isDue_of_computed {p : Position} (hp : p ∈ s.computed) (huntangled : e'.graph.Untangled p) :
    e'.IsDue E p := by
  constructor
  · intro hcycle
    have hring := huntangled.onRing hcycle
    rw [h.graph_eq] at hring
    rw [h.workbook_eq, (h.sound.valid.marked p (h.circular_of_onRing he hlinked hleads hback hp hring)).2]
    exact Value.Matches.refl _
  · exact h.matches_computedValue hp

variable (he₀ : e₀.Consistent) (hmarked : MarkedBy P e₀ e) (hdue : e₀.Due E)
include he₀ hmarked hdue

/-- **A value that is due does not change in a pass.** The induction is along the edges of the graph; a
cell that the pass has computed had and has what is due for it. -/
theorem value_matches (p : Position) : ¬e₀.Stale p → e'.graph.Untangled p →
    (e₀.workbook.value p).Matches E (e'.workbook.value p) := by
  have hsame : SameContents E e₀ e' := h.sameContents hmarked
  have hgraph : e'.graph = e₀.graph := h.graph_eq.trans hmarked.graph_eq
  induction p using induction_along_reads he₀ with
  | step p ih =>
    intro hp huntangled
    by_cases hc : p ∈ s.computed
    · refine hsame.matches_of_due he₀.linked (fun q => h.linkedAt (hlinked q)) (hdue p hp (hgraph ▸ huntangled))
        (h.isDue_of_computed he hlinked hleads hback hc huntangled) (fun f hf hstatic htree => ?_)
        fun hcycle q hq => ih hcycle q hq (fun hs => hp (stale_of_reads hq hs))
          (huntangled.of_reads (hgraph.symm ▸ hq))
      rw [← hmarked.content?_eq] at hf
      rw [h.workbook_eq, h.sound.valid.kept p hc f hf hstatic htree,
        Workbook.value_congr (hmarked.core?_eq p)]
      exact Value.Matches.refl _
    · rw [h.value_eq hc, Workbook.value_congr (hmarked.core?_eq p)]
      exact Value.Matches.refl _

/-- **A pass keeps that values are due**, if with a cell it computes the cells that lie on a cycle with
it. -/
theorem due (hunread : ∀ p, p ∉ e₀.unread) : e'.Due E := by
  have hsame : SameContents E e₀ e' := h.sameContents hmarked
  have hgraph : e'.graph = e₀.graph := h.graph_eq.trans hmarked.graph_eq
  intro p hp huntangled
  by_cases hc : p ∈ s.computed
  · exact h.isDue_of_computed he hlinked hleads hback hc huntangled
  have hold : ¬e₀.Stale p := fun hs => hp (stale_of_mem ((h.mem_dirty p).mpr
    ⟨(hmarked.mem_dirty p).mpr (Or.inl (mem_dirty_of_stale he₀ hunread hs)), hc⟩))
  have hvalue : e'.workbook.value p = e₀.workbook.value p := by
    rw [h.value_eq hc, Workbook.value_congr (hmarked.core?_eq p)]
  have hp₀ := hdue p hold (hgraph ▸ huntangled)
  constructor
  · intro hcycle
    rw [hvalue]
    exact hp₀.cyclic (hgraph ▸ hcycle)
  · intro hcycle
    rw [hvalue]
    refine (hp₀.computed fun hcycle₀ => hcycle (hgraph.symm ▸ hcycle₀)).trans (hsame.computedValue_matches
      (he₀.linked p) (fun _ _ _ _ => Value.Matches.of_eq hvalue.symm) fun q hq => ?_)
    exact h.value_matches he hlinked hleads hback he₀ hmarked hdue q
      (fun hs => hold (stale_of_reads hq hs)) (huntangled.of_reads (hgraph.symm ▸ hq))

end Due

end Passed

end Engine

end Spreadsheet
