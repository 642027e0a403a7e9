import Spreadsheet.Engine.Basic
import Spreadsheet.Proofs.Closure

/-!
# Linking: the record of a formula and the workbook it was made from

`Engine.linkAt` is what the graph should have of the cell at a position, computed from the workbook
alone, and `Engine.LinkedAt` says that graph and cell agree with it. Linking a formula again makes it so
for that formula and takes it from no other:

* `linkedAt_relink` — after `relink` the position is linked;
* `LinkedAt.of_upToLinks` — a position that keeps its cell and its record stays linked;
* `linked_relinkAll` — so, after several positions were linked again, every position is linked that was
  among them or was linked before.

What linking leaves alone is `Engine.UpToLinks`: everything but the graph and the link errors of
formulas.
-/

namespace Spreadsheet

open DependencyGraph

/-! ### Cells without their marks and link errors -/

theorem Formula.tree?_eq_some {f : Formula} {x : Expr} : f.tree? = some x ↔ f.parsed = some (.ok x) := by
  unfold tree?
  split
  · next y hy => rw [hy, Option.some.injEq, Option.some.injEq, Except.ok.injEq]
  · next hnot => exact ⟨fun h => (by cases h), fun h => absurd h (hnot x)⟩

namespace Cell

/-- The tree of the formula of a cell, if its text was read without fault. -/
def tree? (c : Cell) : Option Expr := c.formula?.bind Formula.tree?

/-- The kind of the error that the references of a formula give. -/
def linkKind? (c : Cell) : Option ErrorKind := (c.formula?.bind Formula.linkError).map ErrorValue.kind

/-- A cell without its link error. -/
def unlinked (c : Cell) : Cell := c.setLinkError none

/-- A cell without its link error and its marks: what it holds and shows. -/
def core (c : Cell) : Cell := { c.unlinked with flags := {} }

theorem unlinked_setLinkError (c : Cell) (e : Option ErrorValue) :
    (c.setLinkError e).unlinked = c.unlinked := by
  obtain ⟨content, value, flags⟩ := c
  cases content <;> rfl

theorem core_eq_of_unlinked {c d : Cell} (h : c.unlinked = d.unlinked) : c.core = d.core := by
  unfold core
  rw [h]

theorem value_unlinked (c : Cell) : c.unlinked.value = c.value := by
  obtain ⟨content, value, flags⟩ := c
  cases content <;> rfl

theorem flags_unlinked (c : Cell) : c.unlinked.flags = c.flags := by
  obtain ⟨content, value, flags⟩ := c
  cases content <;> rfl

theorem value_core (c : Cell) : c.core.value = c.value := value_unlinked c

theorem tree?_unlinked (c : Cell) : c.unlinked.tree? = c.tree? := by
  obtain ⟨content, value, flags⟩ := c
  cases content <;> rfl

theorem tree?_core (c : Cell) : c.core.tree? = c.tree? := tree?_unlinked c

theorem core_withFlags (c : Cell) (flags : CellFlags) : ({ c with flags } : Cell).core = c.core := by
  obtain ⟨content, value, flags⟩ := c
  cases content <;> rfl

theorem core_markDirty (c : Cell) : c.markDirty.core = c.core := core_withFlags c _

theorem linkKind?_markDirty (c : Cell) : c.markDirty.linkKind? = c.linkKind? := by
  obtain ⟨content, value, flags⟩ := c
  cases content <;> rfl

theorem formula?_eq_some {c : Cell} {f : Formula} : c.formula? = some f ↔ c.content = .formula f := by
  unfold formula?
  cases c.content with
  | constant v => exact ⟨fun h => (by cases h), fun h => (by cases h)⟩
  | formula g => exact ⟨fun h => (by cases h; rfl), fun h => (by cases h; rfl)⟩

theorem tree?_eq_some {c : Cell} {x : Expr} :
    c.tree? = some x ↔ ∃ f, c.content = .formula f ∧ f.parsed = some (.ok x) := by
  unfold tree?
  rw [Option.bind_eq_some_iff]
  simp only [formula?_eq_some, Formula.tree?_eq_some]

end Cell

namespace Workbook

/-- The tree of the formula at a position. -/
def tree? (w : Workbook) (p : Position) : Option Expr := (w.cell? p).bind Cell.tree?

/-- The kind of link error at a position. -/
def linkKind? (w : Workbook) (p : Position) : Option ErrorKind := (w.cell? p).bind Cell.linkKind?

/-- What the cell at a position holds. -/
def content? (w : Workbook) (p : Position) : Option CellContent := (w.cell? p).map Cell.content

theorem content?_modifyCell {w : Workbook} {p : Position} {change : Cell → Cell}
    (h : ∀ c, (change c).content = c.content) (q : Position) : (w.modifyCell q change).content? p = w.content? p := by
  unfold content?
  rw [cell?_modifyCell]
  split
  · next hp =>
    rw [hp, Option.map_map]
    exact congrFun (congrArg Option.map (funext h)) (w.cell? q)
  · rfl

/-- What is held and shown at a position. -/
def core? (w : Workbook) (p : Position) : Option Cell := (w.cell? p).map Cell.core

theorem tree?_eq_core (w : Workbook) (p : Position) : w.tree? p = (w.core? p).bind Cell.tree? := by
  unfold tree? core?
  cases w.cell? p with
  | none => rfl
  | some c => exact (Cell.tree?_core c).symm

theorem value_eq_core (w : Workbook) (p : Position) :
    w.value p = ((w.core? p).map Cell.value).getD .empty := by
  rw [value_eq]
  unfold core?
  cases w.cell? p with
  | none => rfl
  | some c => exact (Cell.value_core c).symm

theorem isSome_core? (w : Workbook) (p : Position) : (w.core? p).isSome = (w.cell? p).isSome := by
  simp [core?]

section Core

variable {w w' : Workbook} {p p' : Position}

theorem tree?_congr (h : w.core? p = w'.core? p') : w.tree? p = w'.tree? p' := by
  rw [tree?_eq_core, h, tree?_eq_core]

theorem value_congr (h : w.core? p = w'.core? p') : w.value p = w'.value p' := by
  rw [value_eq_core, h, value_eq_core]

/-- The link error comes from what a cell holds. -/
theorem linkKind?_congr (h : w.content? p = w'.content? p') : w.linkKind? p = w'.linkKind? p' := by
  have hkind : ∀ (w : Workbook) (p : Position),
      w.linkKind? p = (w.content? p).bind fun content => Cell.linkKind? ⟨content, .empty, {}⟩ := by
    intro w p
    unfold linkKind? content?
    cases w.cell? p <;> rfl
  rw [hkind, h, ← hkind]

theorem tree?_eq_of_cell (h : w.cell? p = w'.cell? p') : w.tree? p = w'.tree? p' :=
  congrArg (Option.bind · Cell.tree?) h

theorem linkKind?_eq_of_cell (h : w.cell? p = w'.cell? p') : w.linkKind? p = w'.linkKind? p' :=
  congrArg (Option.bind · Cell.linkKind?) h

theorem content?_eq_of_cell (h : w.cell? p = w'.cell? p') : w.content? p = w'.content? p' :=
  congrArg (Option.map Cell.content) h

theorem core?_eq_of_cell (h : w.cell? p = w'.cell? p') : w.core? p = w'.core? p' :=
  congrArg (Option.map Cell.core) h

theorem core?_eq_of_unlinked
    (h : (w.cell? p).map Cell.unlinked = (w'.cell? p').map Cell.unlinked) :
    w.core? p = w'.core? p' := by
  unfold core?
  cases hc : w.cell? p with
  | none =>
    rw [hc] at h
    cases hc' : w'.cell? p' with
    | none => rfl
    | some c' => simp [hc'] at h
  | some c =>
    rw [hc] at h
    cases hc' : w'.cell? p' with
    | none => simp [hc'] at h
    | some c' =>
      rw [hc'] at h
      exact congrArg some (Cell.core_eq_of_unlinked (Option.some.inj h))

end Core

end Workbook

/-! ### What a formula should be linked to -/

namespace Engine

/-- What references mean in an engine. -/
def scope (e : Engine) : Scope := e.workbook.scope e.names e.settings

/-- A name means its area, as long as the sheet of the area is there. -/
theorem area?_scope {e : Engine} {name : String} {found : SheetId × Grid.Rect} :
    e.scope.area? name = some found ↔ ∃ area, e.names.get? name = some area ∧
      e.workbook.contains area.sheet = true ∧ (area.sheet, area.rect) = found := by
  unfold scope Workbook.scope
  dsimp only
  cases e.names.get? name with
  | none => simp
  | some area => simp

/-- What a reference means lies on a sheet that is there. -/
theorem contains_of_resolve {e : Engine} {sheet : SheetId} (hsheet : e.workbook.contains sheet = true) {r : Reference}
    {a : Area} (h : e.scope.resolve r sheet = .ok a) : e.workbook.contains a.sheet = true := by
  refine Scope.sheet_mem_of_resolve (P := fun id => e.workbook.contains id = true) hsheet ?_ ?_ h
  · intro name id hid
    obtain ⟨⟨s, hs, -⟩, -⟩ := Workbook.sheetId?_eq_some.mp hid
    unfold Workbook.contains
    rw [hs]
    rfl
  · intro name id rect harea
    obtain ⟨area, -, hlive, heq⟩ := area?_scope.mp harea
    rw [← (Prod.mk.inj heq).1]
    exact hlive

/-- What the graph should record of a position. -/
def linkAt (e : Engine) (p : Position) : Link :=
  match e.workbook.tree? p with
  | some x => linkOf e.scope p.sheet x
  | none => {}

theorem linkAt_of_tree {e : Engine} {p : Position} {x : Expr} (hx : e.workbook.tree? p = some x) :
    e.linkAt p = linkOf e.scope p.sheet x := by
  unfold linkAt
  rw [hx]

/-- Graph and cell have of a position what they should: the graph its record, and the cell a link error
exactly if one of the references of its formula means nothing. -/
structure LinkedAt (e : Engine) (p : Position) : Prop where
  link_eq : e.graph.link p = e.linkAt p
  kind_eq : e.workbook.linkKind? p =
    if (e.linkAt p).unresolved then some .invalidReference else none

/-- The formula at a position was loaded and its text not read yet. -/
def IsUnread (e : Engine) (p : Position) : Prop :=
  ∃ c f, e.workbook.cell? p = some c ∧ c.content = .formula f ∧ f.parsed = none

/-- Two engines that differ in their graphs and in the link errors of formulas only. -/
structure UpToLinks (e e' : Engine) : Prop where
  rest_eq : e' = { e with workbook := e'.workbook, graph := e'.graph }
  frame : e'.workbook.SameFrame e.workbook
  wellFormed : e.workbook.WellFormed → e'.workbook.WellFormed
  unlinked_eq : ∀ p, (e'.workbook.cell? p).map Cell.unlinked = (e.workbook.cell? p).map Cell.unlinked

namespace UpToLinks

variable {e e' e'' : Engine}

theorem refl (e : Engine) : e.UpToLinks e :=
  ⟨rfl, Workbook.SameFrame.refl _, fun h => h, fun _ => rfl⟩

theorem trans (h : e.UpToLinks e') (h' : e'.UpToLinks e'') : e.UpToLinks e'' := by
  refine ⟨?_, h'.frame.trans h.frame, fun hw => h'.wellFormed (h.wellFormed hw),
    fun p => (h'.unlinked_eq p).trans (h.unlinked_eq p)⟩
  have hrest := h'.rest_eq
  rw [h.rest_eq] at hrest
  exact hrest

theorem settings_eq (h : e.UpToLinks e') : e'.settings = e.settings := by rw [h.rest_eq]

theorem library_eq (h : e.UpToLinks e') : e'.library = e.library := by rw [h.rest_eq]

theorem names_eq (h : e.UpToLinks e') : e'.names = e.names := by rw [h.rest_eq]

theorem dirty_eq (h : e.UpToLinks e') : e'.dirty = e.dirty := by rw [h.rest_eq]

theorem unread_eq (h : e.UpToLinks e') : e'.unread = e.unread := by rw [h.rest_eq]

theorem scope_eq (h : e.UpToLinks e') : e'.scope = e.scope := by
  unfold scope
  rw [h.names_eq, h.settings_eq]
  exact h.frame.scope_eq e.names e.settings

theorem core?_eq (h : e.UpToLinks e') (p : Position) : e'.workbook.core? p = e.workbook.core? p :=
  Workbook.core?_eq_of_unlinked (h.unlinked_eq p)

theorem tree?_eq (h : e.UpToLinks e') (p : Position) : e'.workbook.tree? p = e.workbook.tree? p :=
  Workbook.tree?_congr (h.core?_eq p)

theorem linkAt_eq (h : e.UpToLinks e') (p : Position) : e'.linkAt p = e.linkAt p := by
  unfold linkAt
  rw [h.tree?_eq, h.scope_eq]

/-- Every cell of one engine has its counterpart in the other. -/
theorem cell? (h : e.UpToLinks e') {p : Position} {c' : Cell} (hc : e'.workbook.cell? p = some c') :
    ∃ c, e.workbook.cell? p = some c ∧ c'.unlinked = c.unlinked := by
  have hu := h.unlinked_eq p
  rw [hc] at hu
  obtain ⟨c, hc', heq⟩ := Option.map_eq_some_iff.mp hu.symm
  exact ⟨c, hc', heq.symm⟩

theorem isSome_cell? (h : e.UpToLinks e') (p : Position) :
    (e'.workbook.cell? p).isSome = (e.workbook.cell? p).isSome := by
  rw [← Workbook.isSome_core?, h.core?_eq, Workbook.isSome_core?]

end UpToLinks

/-! ### Linking one formula again -/

section Relink

variable {e : Engine} {p : Position}

theorem relink_of_no_formula (h : (e.workbook.cell? p).bind Cell.formula? = none) :
    e.relink p = { e with graph := e.graph.clear p } := by
  unfold relink
  rw [h]

theorem relink_of_unread {f : Formula} (h : (e.workbook.cell? p).bind Cell.formula? = some f)
    (hf : f.parsed = none) : e.relink p = e := by
  unfold relink
  rw [h]
  dsimp only
  rw [hf]

theorem relink_of_unreadable {f : Formula} {problem : ErrorValue}
    (h : (e.workbook.cell? p).bind Cell.formula? = some f) (hf : f.parsed = some (.error problem)) :
    e.relink p = { e with
      graph := e.graph.clear p
      workbook := e.workbook.modifyCell p fun c => c.setLinkError none } := by
  unfold relink
  rw [h]
  dsimp only
  rw [hf]

theorem relink_of_tree {f : Formula} {x : Expr}
    (h : (e.workbook.cell? p).bind Cell.formula? = some f) (hf : f.parsed = some (.ok x)) :
    e.relink p = { e with
      graph := (e.graph.rebuild p x e.scope).1
      workbook := e.workbook.modifyCell p fun c => c.setLinkError (e.graph.rebuild p x e.scope).2 } := by
  unfold relink
  rw [h]
  dsimp only
  rw [hf]
  rfl

/-- The four ways in which a position is linked again. -/
theorem relink_cases (e : Engine) (p : Position) :
    ((e.workbook.cell? p).bind Cell.formula? = none ∧ e.relink p = { e with graph := e.graph.clear p }) ∨
    (e.IsUnread p ∧ e.relink p = e) ∨
    (∃ f problem, (e.workbook.cell? p).bind Cell.formula? = some f ∧ f.parsed = some (.error problem) ∧
      e.relink p = { e with
        graph := e.graph.clear p
        workbook := e.workbook.modifyCell p fun c => c.setLinkError none }) ∨
    ∃ f x, (e.workbook.cell? p).bind Cell.formula? = some f ∧ f.parsed = some (.ok x) ∧
      e.relink p = { e with
        graph := (e.graph.rebuild p x e.scope).1
        workbook := e.workbook.modifyCell p fun c => c.setLinkError (e.graph.rebuild p x e.scope).2 } := by
  cases h : (e.workbook.cell? p).bind Cell.formula? with
  | none => exact Or.inl ⟨rfl, relink_of_no_formula h⟩
  | some f =>
    cases hf : f.parsed with
    | none =>
      refine Or.inr (Or.inl ⟨?_, relink_of_unread h hf⟩)
      obtain ⟨c, hc, hformula⟩ := Option.bind_eq_some_iff.mp h
      refine ⟨c, f, hc, ?_, hf⟩
      unfold Cell.formula? at hformula
      split at hformula
      · next content => rw [content, Option.some.inj hformula]
      · cases hformula
    | some parsed =>
      cases parsed with
      | error problem =>
        exact Or.inr (Or.inr (Or.inl ⟨f, problem, rfl, hf, relink_of_unreadable h hf⟩))
      | ok x => exact Or.inr (Or.inr (Or.inr ⟨f, x, rfl, hf, relink_of_tree h hf⟩))

theorem upToLinks_setLinkError (e : Engine) (p : Position) (graph : DependencyGraph)
    (problem : Option ErrorValue) :
    e.UpToLinks { e with
      graph
      workbook := e.workbook.modifyCell p fun c => c.setLinkError problem } := by
  refine ⟨rfl, Workbook.sameFrame_modifyCell _ _ _, fun hw => hw.modifySheet _ _, fun q => ?_⟩
  show ((e.workbook.modifyCell p _).cell? q).map Cell.unlinked = _
  rw [Workbook.cell?_modifyCell]
  split
  · next hq =>
    rw [hq, Option.map_map]
    congr 1
    funext c
    exact Cell.unlinked_setLinkError c problem
  · rfl

/-- Linking a formula again changes the graph and its link error only. -/
theorem upToLinks_relink (e : Engine) (p : Position) : e.UpToLinks (e.relink p) := by
  rcases relink_cases e p with ⟨-, h⟩ | ⟨-, h⟩ | ⟨f, problem, -, -, h⟩ | ⟨f, x, -, -, h⟩ <;> rw [h]
  · exact ⟨rfl, Workbook.SameFrame.refl _, fun hw => hw, fun _ => rfl⟩
  · exact UpToLinks.refl e
  · exact upToLinks_setLinkError e p _ _
  · exact upToLinks_setLinkError e p _ _

/-- Linking a formula again keeps both directions of the graph in step. -/
theorem isSymmetric_relink (h : e.graph.IsSymmetric) (p : Position) :
    (e.relink p).graph.IsSymmetric := by
  rcases relink_cases e p with ⟨-, he⟩ | ⟨-, he⟩ | ⟨f, problem, -, -, he⟩ | ⟨f, x, -, -, he⟩ <;> rw [he]
  · exact h.clear p
  · exact h
  · exact h.clear p
  · exact h.rebuild p x e.scope

/-- Linking a formula again leaves the records and cells of the others. -/
theorem link_relink_of_ne (e : Engine) {p q : Position} (hq : q ≠ p) :
    (e.relink p).graph.link q = e.graph.link q ∧
      (e.relink p).workbook.cell? q = e.workbook.cell? q := by
  have hcell : ∀ problem : Option ErrorValue,
      (e.workbook.modifyCell p fun c => c.setLinkError problem).cell? q = e.workbook.cell? q := by
    intro problem
    rw [Workbook.cell?_modifyCell, if_neg hq]
  rcases relink_cases e p with ⟨-, he⟩ | ⟨-, he⟩ | ⟨f, problem, -, -, he⟩ | ⟨f, x, -, -, he⟩ <;> rw [he]
  · exact ⟨by rw [link_clear, if_neg hq], rfl⟩
  · exact ⟨rfl, rfl⟩
  · exact ⟨by rw [link_clear, if_neg hq], hcell none⟩
  · exact ⟨by rw [link_rebuild, if_neg hq], hcell _⟩

theorem LinkedAt.of_upToLinks {e e' : Engine} (h : e.LinkedAt p) (hup : e.UpToLinks e')
    (hlink : e'.graph.link p = e.graph.link p)
    (hkind : e'.workbook.linkKind? p = e.workbook.linkKind? p) : e'.LinkedAt p := by
  constructor
  · rw [hlink, h.link_eq, hup.linkAt_eq]
  · rw [hkind, h.kind_eq, hup.linkAt_eq]

theorem tree?_of_formula {w : Workbook} {f : Formula}
    (h : (w.cell? p).bind Cell.formula? = some f) : w.tree? p = f.tree? := by
  obtain ⟨c, hc, hf⟩ := Option.bind_eq_some_iff.mp h
  unfold Workbook.tree? Cell.tree?
  rw [hc, Option.bind_some, hf]
  rfl

theorem linkKind?_modifyCell {w : Workbook} {f : Formula} (problem : Option ErrorValue)
    (h : (w.cell? p).bind Cell.formula? = some f) :
    (w.modifyCell p fun c => c.setLinkError problem).linkKind? p = problem.map ErrorValue.kind := by
  obtain ⟨c, hc, hf⟩ := Option.bind_eq_some_iff.mp h
  unfold Workbook.linkKind?
  rw [Workbook.cell?_modifyCell, if_pos rfl, hc]
  obtain ⟨content, value, flags⟩ := c
  cases content with
  | constant v => cases hf
  | formula f => rfl

/-- Where there is no formula, there is neither a tree nor a link error. -/
theorem blank_of_no_formula {w : Workbook} (h : (w.cell? p).bind Cell.formula? = none) :
    w.tree? p = none ∧ w.linkKind? p = none := by
  unfold Workbook.tree? Workbook.linkKind?
  cases hc : w.cell? p with
  | none => exact ⟨rfl, rfl⟩
  | some c =>
    rw [hc] at h
    have hformula : c.formula? = none := h
    rw [Option.bind_some, Option.bind_some]
    unfold Cell.tree? Cell.linkKind?
    rw [hformula]
    exact ⟨rfl, rfl⟩

/-- Where there is no formula that was read, nothing is to be recorded. -/
theorem linkedAt_of_blank {e : Engine} {p : Position} (htree : e.workbook.tree? p = none)
    (hkind : e.workbook.linkKind? p = none) (hlink : e.graph.link p = {}) : e.LinkedAt p := by
  have hat : e.linkAt p = {} := by
    unfold linkAt
    rw [htree]
  exact ⟨hlink.trans hat.symm, by rw [hkind, hat]; rfl⟩

/-- **Linking a position again links it**, unless its text has not been read yet. -/
theorem linkedAt_relink (e : Engine) (p : Position) (h : e.LinkedAt p ∨ ¬e.IsUnread p) :
    (e.relink p).LinkedAt p := by
  have hup := upToLinks_relink e p
  have hsame : (e.relink p).workbook.tree? p = e.workbook.tree? p := Workbook.tree?_congr (hup.core?_eq p)
  have hclear : (e.graph.clear p).link p = {} := (link_clear e.graph p p).trans (if_pos rfl)
  rcases relink_cases e p with ⟨hf, he⟩ | ⟨hunread, he⟩ | ⟨f, problem, hf, hparsed, he⟩ |
    ⟨f, x, hf, hparsed, he⟩
  · obtain ⟨htree, hkind⟩ := blank_of_no_formula hf
    refine linkedAt_of_blank (hsame.trans htree) ?_ ?_ <;> rw [he]
    · exact hkind
    · exact hclear
  · rw [he]
    exact h.resolve_right fun hn => hn hunread
  · have htree : e.workbook.tree? p = none := by
      rw [tree?_of_formula hf]
      unfold Formula.tree?
      rw [hparsed]
    refine linkedAt_of_blank (hsame.trans htree) ?_ ?_ <;> rw [he]
    · exact linkKind?_modifyCell none hf
    · exact hclear
  · have htree : e.workbook.tree? p = some x := by
      rw [tree?_of_formula hf]
      unfold Formula.tree?
      rw [hparsed]
    have hat := linkAt_of_tree htree
    constructor
    · rw [hup.linkAt_eq, hat, he]
      exact (link_rebuild e.graph p x e.scope p).trans (if_pos rfl)
    · rw [hup.linkAt_eq, hat, he]
      refine (linkKind?_modifyCell _ hf).trans ?_
      rw [snd_rebuild]
      unfold linkOf
      cases hr : resolveAll e.scope p.sheet x.references with
      | ok areas => rfl
      | error problem =>
        exact congrArg some (kind_of_resolveAll_eq_error hr)

end Relink

/-! ### Linking several formulas again -/

theorem upToLinks_relinkAll (e : Engine) (ps : List Position) : e.UpToLinks (e.relinkAll ps) :=
  foldl_keeps (P := fun e' => e.UpToLinks e') (fun e' p _ h => h.trans (upToLinks_relink e' p))
    (UpToLinks.refl e)

theorem isSymmetric_relinkAll {e : Engine} (h : e.graph.IsSymmetric) (ps : List Position) :
    (e.relinkAll ps).graph.IsSymmetric :=
  foldl_keeps (P := fun e' : Engine => e'.graph.IsSymmetric) (fun _ p _ h => isSymmetric_relink h p) h

theorem isUnread_of_upToLinks {e e' : Engine} (h : e.UpToLinks e') {p : Position}
    (hp : e'.IsUnread p) : e.IsUnread p := by
  obtain ⟨c', f', hc', hf', hparsed⟩ := hp
  obtain ⟨c, hc, heq⟩ := h.cell? hc'
  obtain ⟨content, value, flags⟩ := c
  obtain ⟨content', value', flags'⟩ := c'
  cases hf'
  cases content with
  | constant v => cases heq
  | formula f =>
    refine ⟨_, f, hc, rfl, ?_⟩
    have hparts := congrArg Cell.content heq
    simp only [Cell.unlinked, Cell.setLinkError, Cell.modifyFormula, CellContent.formula.injEq,
      Formula.mk.injEq] at hparts
    rw [← hparts.2.1]
    exact hparsed

/-- **After several positions were linked again, every position is linked** that was among them or was
linked before. -/
theorem linked_relinkAll {e : Engine} (ps : List Position)
    (h : ∀ p, e.LinkedAt p ∨ (p ∈ ps ∧ ¬e.IsUnread p)) (p : Position) : (e.relinkAll ps).LinkedAt p := by
  induction ps generalizing e with
  | nil => exact (h p).resolve_right fun hn => List.not_mem_nil hn.1
  | cons q ps ih =>
    show ((e.relink q).relinkAll ps).LinkedAt p
    apply ih
    intro r
    have hup := upToLinks_relink e q
    by_cases hrq : r = q
    · subst hrq
      exact Or.inl (linkedAt_relink e r ((h r).imp_right And.right))
    · rcases h r with hlinked | ⟨hmem, hread⟩
      · obtain ⟨hlink, hcell⟩ := link_relink_of_ne e hrq
        exact Or.inl (hlinked.of_upToLinks hup hlink (Workbook.linkKind?_eq_of_cell hcell))
      · refine Or.inr ⟨(List.mem_cons.mp hmem).resolve_left hrq, fun hn => hread ?_⟩
        exact isUnread_of_upToLinks hup hn

end Engine

end Spreadsheet
