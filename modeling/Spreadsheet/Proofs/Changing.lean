import Spreadsheet.Proofs.Recomputing

/-!
# Changing: what a call that edits leaves

A call that is no recalculation makes one edit, which a pass over the dirty cells may follow
(`Engine.ChangesTo`). The edit is a faithful change up to some errors (`Engine.Revised`), so it keeps what is
known between two calls, and the pass does so as well (`ChangesTo.follows`).

What an error tells of its origin depends on the names of sheets too. Only a sheet that is renamed gets
another name, and the formulas that name it are dirty then.
-/

namespace Spreadsheet

open DependencyGraph

namespace Engine

/-- The formula of a cell refers to a position with the name of its sheet. -/
def NamesSheetOf (e : Engine) (reader p : Position) : Prop :=
  ∃ x, e.workbook.tree? reader = some x ∧ ∃ entry ∈ x.references, entry.2.sheet?.isSome = true ∧
    ∃ a, e.scope.resolve entry.2 reader.sheet = .ok a ∧ a.covers p = true

/-- What reads a cell has no reference that means nothing. -/
theorem resolved_of_wouldRead {e : Engine} {reader p : Position} (h : e.WouldRead reader p) :
    (e.linkAt reader).unresolved = false := by
  obtain ⟨a, ha, -⟩ := h
  unfold linkAt at ha ⊢
  cases hx : e.workbook.tree? reader with
  | none => rfl
  | some x =>
    rw [hx] at ha
    dsimp only at ha ⊢
    unfold linkOf at ha ⊢
    cases hr : resolveAll e.scope reader.sheet x.references with
    | ok areas => rfl
    | error problem =>
      rw [hr] at ha
      exact absurd ha List.not_mem_nil

/-- Formulas that are alike refer to the same positions with the names of their sheets. -/
theorem Alike.namesSheetOf_iff {e e' : Engine} {reader reader' p : Position} (h : Alike e reader e' reader')
    (hreads : e.WouldRead reader p) : e'.NamesSheetOf reader' p ↔ e.NamesSheetOf reader p := by
  unfold NamesSheetOf
  rw [h.tree?_eq, h.sheet_eq]
  refine exists_congr fun x => and_congr_right fun hx => exists_congr fun entry => and_congr_right fun hentry =>
    and_congr_right fun _ => exists_congr fun a => and_congr_left fun _ => ?_
  exact (h.agree x hx (resolved_of_wouldRead hreads) entry hentry a).symm

/-- One engine is the other after an edit that gives other names to the sheets `renamed` only. Clean formulas
afterwards do not read from such a sheet by its name. -/
structure Revised (E : ErrorValue.Likeness) (renamed : SheetId → Prop) (e e' : Engine) : Prop where
  consistent : e'.Consistent
  faithful : ∃ image, Faithful E image e e'
  named : ∀ reader p, reader ∉ e'.dirty → e'.graph.Reads reader p →
    (e'.workbook.sheet? p.sheet).map Sheet.name = (e.workbook.sheet? p.sheet).map Sheet.name ∨
      (renamed p.sheet ∧ ¬e'.NamesSheetOf reader p)

/-- One engine is the other after an edit and the pass that may follow it. -/
def ChangesTo (E : ErrorValue.Likeness) (renamed : SheetId → Prop) (e e' : Engine) : Prop :=
  ∃ e₁, Revised E renamed e e₁ ∧ (e' = e₁ ∨ e' = (e₁.recompute .dirty).1)

variable {E : ErrorValue.Likeness} {renamed : SheetId → Prop} {image : Position → Option Position}
  {e e' e₁ : Engine} {ps seeds : List Position}

/-- An edit changes nothing about errors, if the formulas that it links again are dirty afterwards, and the
sheets keep their names. -/
theorem Edit.revised (h : Edit image e e₁ ps seeds) (hps : ∀ p ∈ ps, p ∈ e₁.dirty ∨ p ∈ seeds)
    (hnames : ∀ id, e.workbook.contains id = true → e₁.workbook.contains id = true →
      (e₁.workbook.sheet? id).map Sheet.name = (e.workbook.sheet? id).map Sheet.name) :
    Revised E renamed e ((e₁.relinkAll ps).markDirty seeds) :=
  ⟨h.consistent, ⟨image, h.faithful hps hnames⟩, fun _ _ hclean hreads =>
    Or.inl (h.sheetName_eq hnames hclean hreads)⟩

theorem Revised.changesTo (h : Revised E renamed e e') : ChangesTo E renamed e e' := ⟨e', h, Or.inl rfl⟩

/-- After every edit a pass follows if the settings ask for it. -/
theorem Revised.changesTo_afterEdit (h : Revised E renamed e e') : ChangesTo E renamed e e'.afterEdit := by
  refine ⟨e', h, ?_⟩
  unfold afterEdit
  split
  · exact Or.inr rfl
  · exact Or.inl rfl

theorem ChangesTo.consistent (h : ChangesTo E renamed e e') : e'.Consistent := by
  obtain ⟨e₁, hrevised, rfl | rfl⟩ := h
  · exact hrevised.consistent
  · exact consistent_recompute hrevised.consistent _

/-- **Every call that edits keeps what is known between two calls.** -/
theorem ChangesTo.follows (h : ChangesTo E renamed e e') (he : e.Consistent) : FollowsUpTo E e e' := by
  obtain ⟨e₁, hrevised, hpass⟩ := h
  obtain ⟨image, hfaithful⟩ := hrevised.faithful
  have hfollows := hfaithful.follows he hrevised.consistent
  rcases hpass with rfl | rfl
  · exact hfollows
  · exact hfollows.trans (followsUpTo_recompute hrevised.consistent (by simp))

theorem Revised.refl (h : e.Consistent) : Revised E renamed e e :=
  ⟨h, ⟨some, Faithful.refl e⟩, fun _ _ _ _ => Or.inl rfl⟩

theorem ChangesTo.refl (h : e.Consistent) : ChangesTo E renamed e e := (Revised.refl h).changesTo

/-- A call leaves what its action leaves, whenever the arguments are accepted. -/
theorem changesTo_perform {α β : Type} (h : e.Consistent) {checked : Except EngineError α}
    {act : α → Engine × β} (hact : ∀ x, checked = .ok x → ChangesTo E renamed e (act x).1) :
    ChangesTo E renamed e (e.perform checked act).engine := by
  cases hc : checked with
  | error problem => exact ChangesTo.refl h
  | ok x => exact hact x hc

end Engine

end Spreadsheet
