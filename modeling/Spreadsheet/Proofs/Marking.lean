import Spreadsheet.Proofs.Linking

/-!
# Marking: the cells that an edit makes dirty

`Engine.markDirty` marks the stored cells among some positions and all that depend on them.
`Engine.MarkedBy` says what marking the positions with a property comes to: the dirty set grows by those
of them where a cell is stored, these cells get their mark, and nothing else changes. It holds of every
fold of `markCell` (`markedBy_foldl`) and so of `markDirty` (`markedBy_markDirty`).
-/

namespace Spreadsheet

namespace Engine

/-- One engine is the other with the stored cells marked that have a property. -/
structure MarkedBy (P : Position → Prop) (e e' : Engine) : Prop where
  rest_eq : e' = { e with workbook := e'.workbook, dirty := e'.dirty }
  frame : e'.workbook.SameFrame e.workbook
  wellFormed : e.workbook.WellFormed → e'.workbook.WellFormed
  cell_marked : ∀ q, P q → e'.workbook.cell? q = (e.workbook.cell? q).map Cell.markDirty
  cell_unmarked : ∀ q, ¬P q → e'.workbook.cell? q = e.workbook.cell? q
  mem_dirty : ∀ q, q ∈ e'.dirty ↔ q ∈ e.dirty ∨ (P q ∧ (e.workbook.cell? q).isSome = true)

theorem markedBy_nothing {P : Position → Prop} (h : ∀ q, ¬P q) (e : Engine) : MarkedBy P e e where
  rest_eq := rfl
  frame := Workbook.SameFrame.refl _
  wellFormed := fun hw => hw
  cell_marked := fun q hq => absurd hq (h q)
  cell_unmarked := fun _ _ => rfl
  mem_dirty := fun q => by simp [h q]

theorem markedBy_markCell (e : Engine) (p : Position) : MarkedBy (fun q => q = p) e (e.markCell p) := by
  unfold markCell
  cases hc : e.workbook.cell? p with
  | none =>
    constructor
    case rest_eq => rfl
    case frame => exact Workbook.SameFrame.refl _
    case wellFormed => exact fun hw => hw
    case cell_marked =>
      rintro q rfl
      show e.workbook.cell? q = _
      rw [hc]
      rfl
    case cell_unmarked => exact fun _ _ => rfl
    case mem_dirty =>
      intro q
      show q ∈ e.dirty ↔ _
      constructor
      · exact Or.inl
      · rintro (h | ⟨rfl, h⟩)
        · exact h
        · rw [hc] at h
          cases h
  | some c =>
    constructor
    case rest_eq => rfl
    case frame => exact Workbook.sameFrame_modifyCell _ _ _
    case wellFormed => exact fun hw => hw.modifySheet _ _
    case cell_marked =>
      rintro q rfl
      show (e.workbook.modifyCell q Cell.markDirty).cell? q = _
      rw [Workbook.cell?_modifyCell, if_pos rfl]
    case cell_unmarked =>
      intro q hq
      show (e.workbook.modifyCell p Cell.markDirty).cell? q = _
      rw [Workbook.cell?_modifyCell, if_neg hq]
    case mem_dirty =>
      intro q
      show q ∈ e.dirty.insert p ↔ _
      rw [mem_insert_iff]
      constructor
      · rintro (rfl | h)
        · exact Or.inr ⟨rfl, by rw [hc]; rfl⟩
        · exact Or.inl h
      · rintro (h | ⟨rfl, -⟩)
        · exact Or.inr h
        · exact Or.inl rfl

namespace MarkedBy

variable {P Q : Position → Prop} {e e' e'' : Engine}

theorem isSome_cell? (h : MarkedBy P e e') (q : Position) :
    (e'.workbook.cell? q).isSome = (e.workbook.cell? q).isSome := by
  by_cases hq : P q
  · rw [h.cell_marked q hq, Option.isSome_map]
  · rw [h.cell_unmarked q hq]

theorem content?_eq (h : MarkedBy P e e') (q : Position) : e'.workbook.content? q = e.workbook.content? q := by
  unfold Workbook.content?
  by_cases hq : P q
  · rw [h.cell_marked q hq, Option.map_map]
    rfl
  · rw [h.cell_unmarked q hq]

/-- Marking twice is marking what either property marks. -/
theorem trans (h : MarkedBy P e e') (h' : MarkedBy Q e' e'') : MarkedBy (fun q => P q ∨ Q q) e e'' := by
  constructor
  case rest_eq =>
    have hrest := h'.rest_eq
    rw [h.rest_eq] at hrest
    exact hrest
  case frame => exact h'.frame.trans h.frame
  case wellFormed => exact fun hw => h'.wellFormed (h.wellFormed hw)
  case cell_marked =>
    intro q hq
    by_cases hQ : Q q
    · rw [h'.cell_marked q hQ]
      by_cases hP : P q
      · rw [h.cell_marked q hP, Option.map_map]
        rfl
      · rw [h.cell_unmarked q hP]
    · rw [h'.cell_unmarked q hQ, h.cell_marked q (hq.resolve_right hQ)]
  case cell_unmarked =>
    intro q hq
    rw [h'.cell_unmarked q fun hQ => hq (Or.inr hQ), h.cell_unmarked q fun hP => hq (Or.inl hP)]
  case mem_dirty =>
    intro q
    rw [h'.mem_dirty, h.mem_dirty, h.isSome_cell?]
    tauto

theorem congr (h : MarkedBy P e e') (hPQ : ∀ q, P q ↔ Q q) : MarkedBy Q e e' := by
  rw [show P = Q from funext fun q => propext (hPQ q)] at h
  exact h

theorem settings_eq (h : MarkedBy P e e') : e'.settings = e.settings := by rw [h.rest_eq]

theorem library_eq (h : MarkedBy P e e') : e'.library = e.library := by rw [h.rest_eq]

theorem names_eq (h : MarkedBy P e e') : e'.names = e.names := by rw [h.rest_eq]

theorem graph_eq (h : MarkedBy P e e') : e'.graph = e.graph := by rw [h.rest_eq]

theorem unread_eq (h : MarkedBy P e e') : e'.unread = e.unread := by rw [h.rest_eq]

theorem scope_eq (h : MarkedBy P e e') : e'.scope = e.scope := by
  unfold scope
  rw [h.names_eq, h.settings_eq]
  exact h.frame.scope_eq e.names e.settings

/-- Every cell is the one it was, or that one with its mark. -/
theorem cell? (h : MarkedBy P e e') {q : Position} {c' : Cell} (hc : e'.workbook.cell? q = some c') :
    ∃ c, e.workbook.cell? q = some c ∧ ((P q ∧ c' = c.markDirty) ∨ (¬P q ∧ c' = c)) := by
  by_cases hq : P q
  · rw [h.cell_marked q hq] at hc
    obtain ⟨c, hcell, rfl⟩ := Option.map_eq_some_iff.mp hc
    exact ⟨c, hcell, Or.inl ⟨hq, rfl⟩⟩
  · rw [h.cell_unmarked q hq] at hc
    exact ⟨c', hc, Or.inr ⟨hq, rfl⟩⟩

theorem core?_eq (h : MarkedBy P e e') (q : Position) : e'.workbook.core? q = e.workbook.core? q := by
  unfold Workbook.core?
  by_cases hq : P q
  · rw [h.cell_marked q hq, Option.map_map]
    congr 1
    funext c
    exact Cell.core_markDirty c
  · rw [h.cell_unmarked q hq]

theorem linkKind?_eq (h : MarkedBy P e e') (q : Position) :
    e'.workbook.linkKind? q = e.workbook.linkKind? q := by
  unfold Workbook.linkKind?
  by_cases hq : P q
  · rw [h.cell_marked q hq]
    cases e.workbook.cell? q with
    | none => rfl
    | some c => exact Cell.linkKind?_markDirty c
  · rw [h.cell_unmarked q hq]

theorem tree?_eq (h : MarkedBy P e e') (q : Position) : e'.workbook.tree? q = e.workbook.tree? q :=
  Workbook.tree?_congr (h.core?_eq q)

theorem linkAt_eq (h : MarkedBy P e e') (q : Position) : e'.linkAt q = e.linkAt q := by
  unfold linkAt
  rw [h.tree?_eq, h.scope_eq]

theorem linkedAt (h : MarkedBy P e e') {q : Position} (hq : e.LinkedAt q) : e'.LinkedAt q := by
  constructor
  · rw [h.graph_eq, hq.link_eq, h.linkAt_eq]
  · rw [h.linkKind?_eq, hq.kind_eq, h.linkAt_eq]

end MarkedBy

theorem markedBy_foldl (e : Engine) (ps : List Position) :
    MarkedBy (fun q => q ∈ ps) e (ps.foldl markCell e) := by
  induction ps generalizing e with
  | nil => exact markedBy_nothing (fun _ h => List.not_mem_nil h) e
  | cons p ps ih =>
    exact ((markedBy_markCell e p).trans (ih (e.markCell p))).congr fun q => List.mem_cons.symm

/-- **What an edit marks**: the stored cells among the seeds, and all that depend on a seed. -/
theorem markedBy_markDirty {e : Engine} (hg : e.graph.IsSymmetric) (seeds : List Position) :
    MarkedBy (fun q => ∃ p ∈ seeds, Relation.ReflTransGen e.graph.Reads q p) e (e.markDirty seeds) := by
  refine (markedBy_foldl e _).congr fun q => ?_
  rw [Std.TreeSet.mem_toList]
  exact DependencyGraph.mem_closure hg

/-- Without seeds nothing is marked. -/
theorem markDirty_nil (e : Engine) : e.markDirty [] = e := by
  have hclosure : e.graph.closure [] = {} := by
    unfold DependencyGraph.closure
    rw [reach]
  unfold markDirty
  rw [hclosure]
  rfl

end Engine

end Spreadsheet
