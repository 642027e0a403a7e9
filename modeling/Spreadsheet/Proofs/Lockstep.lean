import Mathlib
import Spreadsheet.Proofs.Loading
import Spreadsheet.Proofs.PassRuns

/-!
# Lockstep: passes over engines that are alike

Sorted maps and sets with the same entries need not be the same trees, so two engines in which the same
things happened in another order are rarely equal. They are alike if everything that can be asked about them
has the same answer, and then their passes do the same, step by step:

* `Pass.Alike.step` — two passes that are alike make steps that are alike, or both have none left to make;
* `Engine.Alike.recompute` — so alike engines give the same report, and are alike again.

`Engine.AlikeUpTo` is weaker: at the positions with a property the engines may disagree on whether the cell is
dirty. Reading the loaded formulas keeps this, and removes the difference if all these positions depend on such
a formula (`AlikeUpTo.readAllLoaded`).
-/

namespace Spreadsheet

open DependencyGraph Relation

namespace Workbook

/-- Two workbooks with the same sheets, regions and cells. -/
structure SameCells (w w' : Workbook) : Prop where
  frame : w.SameFrame w'
  cell_eq : ∀ p, w.cell? p = w'.cell? p

namespace SameCells

variable {w w' : Workbook}

theorem context_eq (h : w.SameCells w') (names : NamedAreas) (settings : Settings) (library : Library) :
    w.context names settings library = w'.context names settings library := by
  have hvalue : w.value = w'.value := by
    funext p
    rw [Workbook.value_eq, Workbook.value_eq, h.cell_eq]
  have hname : (fun id => (w.sheet? id).map Sheet.name) = fun id => (w'.sheet? id).map Sheet.name :=
    funext h.frame.sheetName_eq
  unfold context
  rw [h.frame.scope_eq, hvalue, hname, h.frame.isObscured_eq]

theorem modifyCell (h : w.SameCells w') (p : Position) (change : Cell → Cell) :
    (w.modifyCell p change).SameCells (w'.modifyCell p change) := by
  refine ⟨(sameFrame_modifyCell w p change).trans (h.frame.trans (sameFrame_modifyCell w' p change).symm), fun q => ?_⟩
  rw [cell?_modifyCell, cell?_modifyCell, h.cell_eq, h.cell_eq]

end SameCells

end Workbook

/-! ### Passes -/

/-- What stays the same during two passes, as far as they can see. -/
structure Surroundings.Alike (env env' : Surroundings) : Prop where
  names_eq : env.names = env'.names
  settings_eq : env.settings = env'.settings
  library_eq : env.library = env'.library
  precedents_eq : ∀ p, env.graph.precedentsOf p = env'.graph.precedentsOf p

namespace Pass

/-- Two passes that have come equally far. -/
structure Alike (s t : Pass) : Prop where
  workbook : s.workbook.SameCells t.workbook
  dirty : s.dirty.Equiv t.dirty
  waiting : s.waiting.Equiv t.waiting
  stack_eq : s.stack = t.stack
  computed_eq : s.computed = t.computed
  circular_eq : s.circular = t.circular
  changed_eq : s.changed = t.changed

namespace Alike

variable {env env' : Surroundings} {s t : Pass} (henv : env.Alike env') (h : s.Alike t)
include h

theorem withStack (stack : List Frame) : ({ s with stack } : Pass).Alike { t with stack } :=
  ⟨h.workbook, h.dirty, h.waiting, rfl, h.computed_eq, h.circular_eq, h.changed_eq⟩

include henv

theorem computedValue_eq (p : Position) : computedValue env s.workbook p = computedValue env' t.workbook p := by
  unfold computedValue
  rw [h.workbook.context_eq, henv.names_eq, henv.settings_eq, henv.library_eq, h.workbook.cell_eq]

theorem awaitedBy_eq (p : Position) : awaitedBy env s.dirty p = awaitedBy env' t.dirty p := by
  unfold awaitedBy
  rw [henv.precedents_eq, h.dirty.toList_eq]
  simp only [h.dirty.contains_eq]

theorem begin (p : Position) : (Pass.begin env s p).Alike (Pass.begin env' t p) := by
  unfold Pass.begin
  rw [← h.workbook.cell_eq]
  split
  · exact ⟨h.workbook, h.dirty.erase p, h.waiting.erase p, h.stack_eq, h.computed_eq, h.circular_eq, h.changed_eq⟩
  · refine ⟨h.workbook.modifyCell p _, h.dirty, h.waiting.erase p, ?_, h.computed_eq, h.circular_eq, h.changed_eq⟩
    dsimp only
    rw [h.awaitedBy_eq henv, h.stack_eq]

theorem finish (f : Frame) : (Pass.finish env s f).Alike (Pass.finish env' t f) := by
  unfold Pass.finish
  dsimp only
  rw [← h.computedValue_eq henv, ← h.workbook.cell_eq, ← h.computed_eq, ← h.circular_eq, ← h.changed_eq]
  exact ⟨h.workbook.modifyCell _ _, h.dirty.erase _, h.waiting, h.stack_eq, rfl, rfl, rfl⟩

/-- **Two passes that are alike make the same step.** -/
theorem step : Option.Rel Alike (Pass.step env s) (Pass.step env' t) := by
  unfold Pass.step
  rw [← h.stack_eq]
  split
  · exact .none
  · exact .some ((h.withStack _).finish henv _)
  · next next awaited cyclic below _ =>
    dsimp only
    rw [← h.waiting.contains_eq, ← h.dirty.contains_eq]
    split
    · exact .some ((h.withStack _).begin henv next)
    · split <;> exact .some (h.withStack _)

theorem settle : (Pass.settle env s).Alike (Pass.settle env' t) := by
  induction s using settle.induct env generalizing t with
  | case1 s hnone =>
    have hstep := h.step henv
    rw [hnone] at hstep
    cases ht : Pass.step env' t with
    | none => rwa [settle_of_none hnone, settle_of_none ht]
    | some t' =>
      rw [ht] at hstep
      cases hstep
  | case2 s s' hsome ih =>
    have hstep := h.step henv
    rw [hsome] at hstep
    cases ht : Pass.step env' t with
    | none =>
      rw [ht] at hstep
      cases hstep
    | some t' =>
      rw [ht] at hstep
      rw [settle_of_some hsome, settle_of_some ht]
      cases hstep with
      | some hstep => exact ih hstep

theorem compute (p : Position) : (Pass.compute env s p).Alike (Pass.compute env' t p) := by
  unfold Pass.compute
  rw [← h.dirty.contains_eq]
  split
  · refine Alike.settle henv (Alike.begin henv ?_ p)
    exact ⟨h.workbook, h.dirty, h.dirty, h.stack_eq, h.computed_eq, h.circular_eq, h.changed_eq⟩
  · exact h

/-- **Passes over all dirty cells do the same.** -/
theorem run : (Pass.run env s .dirty).Alike (Pass.run env' t .dirty) := by
  have horder : s.inOrder = t.inOrder := by
    unfold inOrder
    rw [h.workbook.frame.order_eq, h.dirty.toList_eq]
  show (s.inOrder.foldl _ s).Alike (t.inOrder.foldl _ t)
  rw [← horder]
  exact List.foldl_rel h fun p _ _ _ hpass => hpass.compute henv p

end Alike

end Pass

/-! ### Engines -/

/-- A formula that had been read is read as the same tree again. -/
theorem Cell.IsOrderly.tree?_readAs {read : String → Except ErrorValue Expr} {c : Cell} (h : c.IsOrderly read)
    {x : Expr} (hx : c.tree? = some x) : (c.readAs read).tree? = some x := by
  obtain ⟨f, hf, hparsed⟩ := Cell.tree?_eq_some.mp hx
  obtain ⟨content, value, flags⟩ := c
  obtain rfl : content = .formula f := hf
  rcases h.formula f rfl with hnone | hread
  · rw [hnone] at hparsed
    cases hparsed
  · exact Cell.tree?_eq_some.mpr ⟨_, rfl, hread.symm.trans hparsed⟩

namespace Engine

/-- Two engines for which all questions have the same answers, except that at the positions with a property only
one of them may hold the cell for dirty. -/
structure AlikeUpTo (P : Position → Prop) (e e' : Engine) : Prop where
  settings_eq : e.settings = e'.settings
  library_eq : e.library = e'.library
  names_eq : e.names = e'.names
  mailbox_eq : e.mailbox = e'.mailbox
  frame : e.workbook.SameFrame e'.workbook
  cell_eq : ∀ p, ¬P p → e.workbook.cell? p = e'.workbook.cell? p
  marked_eq : ∀ p, P p → (e.workbook.cell? p).map Cell.markDirty = (e'.workbook.cell? p).map Cell.markDirty
  link_eq : ∀ p, e.graph.link p = e'.graph.link p
  symmetric : e.graph.IsSymmetric
  symmetric' : e'.graph.IsSymmetric
  unread : e.unread.Equiv e'.unread
  changes : e.changes.Equiv e'.changes
  dirty : ∀ p, (P p → e.workbook.cell? p = none) → (p ∈ e.dirty ↔ p ∈ e'.dirty)

namespace AlikeUpTo

variable {P : Position → Prop} {e e' : Engine} (h : AlikeUpTo P e e')
include h

theorem scope_eq : e.scope = e'.scope := by
  unfold scope
  rw [h.frame.scope_eq, h.names_eq, h.settings_eq]

theorem readFormula_eq : e.readFormula = e'.readFormula := by
  unfold readFormula
  rw [h.settings_eq]

/-- The formula of a cell is the same in both, whether or not the cell is dirty. -/
theorem formula?_eq (p : Position) :
    (e.workbook.cell? p).bind Cell.formula? = (e'.workbook.cell? p).bind Cell.formula? := by
  by_cases hp : P p
  · have hmarked := congrArg (Option.bind · Cell.formula?) (h.marked_eq p hp)
    rwa [Option.bind_map, Option.bind_map] at hmarked
  · rw [h.cell_eq p hp]

theorem cell_eq_none (p : Position) : e.workbook.cell? p = none ↔ e'.workbook.cell? p = none := by
  by_cases hp : P p
  · rw [← Option.map_eq_none_iff (f := Cell.markDirty), h.marked_eq p hp, Option.map_eq_none_iff]
  · rw [h.cell_eq p hp]

/-- Both graphs are changed, to graphs that have the same records again. -/
theorem withGraph {g g' : DependencyGraph} (hlink : ∀ p, g.link p = g'.link p) (hg : g.IsSymmetric)
    (hg' : g'.IsSymmetric) : AlikeUpTo P { e with graph := g } { e' with graph := g' } :=
  { h with link_eq := hlink, symmetric := hg, symmetric' := hg' }

/-- The same change to a cell, one that does not look at the mark of a dirty cell. -/
theorem modifyCell (p : Position) {change : Cell → Cell} (hchange : ∀ c, (change c).markDirty = change c.markDirty) :
    AlikeUpTo P { e with workbook := e.workbook.modifyCell p change }
      { e' with workbook := e'.workbook.modifyCell p change } := by
  refine { h with frame := ?_, cell_eq := fun q hq => ?_, marked_eq := fun q hq => ?_, dirty := fun q hq => ?_ }
  · exact (Workbook.sameFrame_modifyCell _ _ _).trans (h.frame.trans (Workbook.sameFrame_modifyCell _ _ _).symm)
  · show (e.workbook.modifyCell p change).cell? q = (e'.workbook.modifyCell p change).cell? q
    rw [Workbook.cell?_modifyCell, Workbook.cell?_modifyCell]
    split
    · next heq => rw [← heq, h.cell_eq q hq]
    · exact h.cell_eq q hq
  · have hmarked := h.marked_eq q hq
    show ((e.workbook.modifyCell p change).cell? q).map _ = ((e'.workbook.modifyCell p change).cell? q).map _
    rw [Workbook.cell?_modifyCell, Workbook.cell?_modifyCell]
    split
    · next heq =>
      have hcomm : Cell.markDirty ∘ change = change ∘ Cell.markDirty := funext hchange
      rw [← heq, Option.map_map, Option.map_map, hcomm, ← Option.map_map, ← Option.map_map, hmarked]
    · exact hmarked
  · refine h.dirty q fun hP => ?_
    have hnone : (e.workbook.modifyCell p change).cell? q = none := hq hP
    rw [Workbook.cell?_modifyCell] at hnone
    split at hnone
    · next heq => rw [heq, Option.map_eq_none_iff.mp hnone]
    · exact hnone

theorem relink (p : Position) : AlikeUpTo P (e.relink p) (e'.relink p) := by
  have hsetLinkError : ∀ problem, ∀ c : Cell,
      (c.setLinkError problem).markDirty = c.markDirty.setLinkError problem := by
    rintro problem ⟨content, value, flags⟩
    cases content <;> rfl
  have hclear : ∀ q, (e.graph.clear p).link q = (e'.graph.clear p).link q := fun q => by
    rw [link_clear, link_clear, h.link_eq]
  cases hf : (e.workbook.cell? p).bind Cell.formula? with
  | none =>
    rw [relink_of_no_formula hf, relink_of_no_formula ((h.formula?_eq p).symm.trans hf)]
    exact h.withGraph hclear (h.symmetric.clear p) (h.symmetric'.clear p)
  | some f =>
    have hf' := (h.formula?_eq p).symm.trans hf
    cases hparsed : f.parsed with
    | none =>
      rw [relink_of_unread hf hparsed, relink_of_unread hf' hparsed]
      exact h
    | some parsed =>
      cases parsed with
      | error problem =>
        rw [relink_of_unreadable hf hparsed, relink_of_unreadable hf' hparsed]
        exact (h.modifyCell p (hsetLinkError none)).withGraph hclear (h.symmetric.clear p) (h.symmetric'.clear p)
      | ok x =>
        rw [relink_of_tree hf hparsed, relink_of_tree hf' hparsed, ← h.scope_eq]
        have hproblem : (e.graph.rebuild p x e.scope).2 = (e'.graph.rebuild p x e.scope).2 := by
          rw [snd_rebuild, snd_rebuild]
        rw [← hproblem]
        refine (h.modifyCell p (hsetLinkError _)).withGraph (fun q => ?_) (h.symmetric.rebuild p x e.scope)
          (h.symmetric'.rebuild p x e.scope)
        rw [link_rebuild, link_rebuild, h.link_eq]

theorem readLoaded (p : Position) : AlikeUpTo P (e.readLoaded p) (e'.readLoaded p) := by
  have hread : ∀ parsed, ∀ c : Cell, (c.read parsed).markDirty = c.markDirty.read parsed := by
    rintro parsed ⟨content, value, flags⟩
    cases content <;> rfl
  have hformula := h.formula?_eq p
  unfold Engine.readLoaded
  cases hc : e.workbook.cell? p with
  | none =>
    rw [(h.cell_eq_none p).mp hc]
    exact h.relink p
  | some c =>
    obtain ⟨c', hc'⟩ := Option.ne_none_iff_exists'.mp fun hnone => by
      rw [(h.cell_eq_none p).mpr hnone] at hc
      cases hc
    rw [hc, hc'] at hformula
    have htext : c.formulaText? = c'.formulaText? := congrArg (Option.map Formula.text) hformula
    rw [hc']
    dsimp only
    rw [← htext]
    cases c.formulaText? with
    | none => exact h
    | some text =>
      dsimp only
      rw [← h.readFormula_eq]
      exact (h.modifyCell p (hread _)).relink p

/-- Marking all positions at which they may differ makes two engines alike. -/
theorem markDirty {seeds : List Position} (hseeds : ∀ q, P q → ∃ p ∈ seeds, ReflTransGen e.graph.Reads q p) :
    AlikeUpTo (fun _ => False) (e.markDirty seeds) (e'.markDirty seeds) := by
  have hreads : e.graph.Reads = e'.graph.Reads := by
    funext q p
    unfold Reads
    rw [show e.graph.precedentsOf q = e'.graph.precedentsOf q from congrArg Link.areas (h.link_eq q)]
  have hmarked := markedBy_markDirty h.symmetric seeds
  have hmarked' := markedBy_markDirty h.symmetric' seeds
  rw [← hreads] at hmarked'
  generalize e.markDirty seeds = e₁ at hmarked ⊢
  generalize e'.markDirty seeds = e₁' at hmarked' ⊢
  constructor
  case settings_eq => rw [hmarked.settings_eq, hmarked'.settings_eq, h.settings_eq]
  case library_eq => rw [hmarked.library_eq, hmarked'.library_eq, h.library_eq]
  case names_eq => rw [hmarked.names_eq, hmarked'.names_eq, h.names_eq]
  case mailbox_eq => rw [hmarked.rest_eq, hmarked'.rest_eq, h.mailbox_eq]
  case frame => exact hmarked.frame.trans (h.frame.trans hmarked'.frame.symm)
  case cell_eq =>
    intro q _
    by_cases hq : ∃ p ∈ seeds, ReflTransGen e.graph.Reads q p
    · rw [hmarked.cell_marked q hq, hmarked'.cell_marked q hq]
      by_cases hP : P q
      · exact h.marked_eq q hP
      · rw [h.cell_eq q hP]
    · rw [hmarked.cell_unmarked q hq, hmarked'.cell_unmarked q hq, h.cell_eq q fun hP => hq (hseeds q hP)]
  case marked_eq => exact fun q hq => hq.elim
  case link_eq =>
    intro q
    rw [hmarked.graph_eq, hmarked'.graph_eq, h.link_eq]
  case symmetric =>
    rw [hmarked.graph_eq]
    exact h.symmetric
  case symmetric' =>
    rw [hmarked'.graph_eq]
    exact h.symmetric'
  case unread =>
    rw [hmarked.unread_eq, hmarked'.unread_eq]
    exact h.unread
  case changes =>
    rw [hmarked.rest_eq, hmarked'.rest_eq]
    exact h.changes
  case dirty =>
    intro q _
    have hstored : (e.workbook.cell? q).isSome = (e'.workbook.cell? q).isSome := by
      rw [Bool.eq_iff_iff, Option.isSome_iff_ne_none, Option.isSome_iff_ne_none, ne_eq, ne_eq, h.cell_eq_none]
    rw [hmarked.mem_dirty, hmarked'.mem_dirty, ← hstored]
    by_cases hP : P q ∧ (e.workbook.cell? q).isSome = true
    · have hq := hseeds q hP.1
      exact iff_of_true (Or.inr ⟨hq, hP.2⟩) (Or.inr ⟨hq, hP.2⟩)
    · refine or_congr_left (h.dirty q fun hp => ?_)
      rw [← Option.not_isSome_iff_eq_none]
      exact fun hsome => hP ⟨hp, hsome⟩

end AlikeUpTo

/-- What a formula reads stays what it was when all loaded formulas are read. -/
theorem reads_readLoaded {e : Engine} (h : e.Consistent) {q p : Position} (hreads : e.graph.Reads q p) :
    (e.unread.toList.foldl Engine.readLoaded { e with unread := {} }).graph.Reads q p := by
  have hread := readFrom_foldl { e with unread := {} } e.unread.toList
  have hlinked := hread.linked fun q => ⟨(h.linked q).link_eq, (h.linked q).kind_eq⟩
  generalize e.unread.toList.foldl Engine.readLoaded { e with unread := {} } = e₁ at hread hlinked ⊢
  rw [reads_iff_wouldRead (h.linked q)] at hreads
  rw [reads_iff_wouldRead (hlinked q)]
  obtain ⟨a, ha, hcovers⟩ := hreads
  obtain ⟨x, hx, -⟩ := exists_reference_of_mem_areas ha
  have hx₁ : e₁.workbook.tree? q = some x := by
    obtain ⟨c, hc, htree⟩ := Option.bind_eq_some_iff.mp hx
    obtain ⟨c₁, hc₁⟩ := Option.isSome_iff_exists.mp ((hread.isSome_cell? q).trans (by rw [hc]; rfl))
    refine Option.bind_eq_some_iff.mpr ⟨c₁, hc₁, ?_⟩
    obtain ⟨c', hc', hcell⟩ := hread.cell? hc₁
    obtain rfl : c = c' := Option.some.inj (hc.symm.trans hc')
    rw [← Cell.tree?_unlinked]
    rcases hcell with ⟨-, heq⟩ | ⟨-, heq⟩
    · rw [heq, Cell.tree?_unlinked]
      exact (h.cells q c hc).tree?_readAs htree
    · rw [heq, Cell.tree?_unlinked, htree]
  refine ⟨a, ?_, hcovers⟩
  rw [linkAt_of_tree hx₁, hread.scope_eq]
  rw [linkAt_of_tree hx] at ha
  exact ha

/-- Reading the loaded formulas makes two engines alike, if these are what all cells depend on at which the engines
may differ. -/
theorem AlikeUpTo.readAllLoaded {P : Position → Prop} {e e' : Engine} (h : AlikeUpTo P e e') (he : e.Consistent)
    (hP : ∀ q, P q → ∃ p ∈ e.unread, ReflTransGen e.graph.Reads q p) :
    AlikeUpTo (fun _ => False) e.readAllLoaded e'.readAllLoaded := by
  unfold Engine.readAllLoaded
  dsimp only
  rw [← h.unread.toList_eq]
  split
  · next hempty =>
    have hnone : ∀ q, ¬P q := by
      intro q hq
      obtain ⟨p, hp, -⟩ := hP q hq
      rw [← Std.TreeSet.mem_toList, List.isEmpty_iff.mp hempty] at hp
      exact List.not_mem_nil hp
    have hnowhere : P = fun _ => False := funext fun q => eq_false (hnone q)
    rwa [hnowhere] at h
  · have hunread : AlikeUpTo P { e with unread := {} } { e' with unread := {} } :=
      { h with unread := Std.TreeSet.Equiv.rfl }
    have hread : AlikeUpTo P (e.unread.toList.foldl Engine.readLoaded { e with unread := {} })
        (e.unread.toList.foldl Engine.readLoaded { e' with unread := {} }) :=
      List.foldl_rel hunread fun p _ _ _ hp => hp.readLoaded p
    refine hread.markDirty fun q hq => ?_
    obtain ⟨p, hp, hpath⟩ := hP q hq
    exact ⟨p, Std.TreeSet.mem_toList.mpr hp, ReflTransGen.mono (fun _ _ => reads_readLoaded he) _ _ hpath⟩

/-- **Two engines make the same pass over all dirty cells and report the same**, if they are alike but for cells
that depend on a formula that has yet to be read. -/
theorem AlikeUpTo.recompute {P : Position → Prop} {e e' : Engine} (h : AlikeUpTo P e e') (he : e.Consistent)
    (hP : ∀ q, P q → ∃ p ∈ e.unread, ReflTransGen e.graph.Reads q p) :
    AlikeUpTo (fun _ => False) (e.recompute .dirty).1 (e'.recompute .dirty).1 ∧
      (e.recompute .dirty).2 = (e'.recompute .dirty).2 := by
  have hread := h.readAllLoaded he hP
  unfold Engine.recompute
  dsimp only
  generalize e.readAllLoaded = e₁ at hread ⊢
  generalize e'.readAllLoaded = e₁' at hread ⊢
  have hcell : e₁.workbook.SameCells e₁'.workbook := ⟨hread.frame, fun p => hread.cell_eq p not_false⟩
  have hdirty : e₁.dirty.Equiv e₁'.dirty := .of_forall_mem_iff fun p => hread.dirty p False.elim
  have henv : e₁.surroundings.Alike e₁'.surroundings :=
    ⟨hread.names_eq, hread.settings_eq, hread.library_eq, fun p => congrArg Link.areas (hread.link_eq p)⟩
  have hpass : (e₁.pass .dirty).Alike (e₁'.pass .dirty) :=
    Pass.Alike.run henv ⟨hcell, hdirty, hdirty, rfl, rfl, rfl, rfl⟩
  rw [← hread.changes.toList_eq, ← hpass.computed_eq, ← hpass.circular_eq, ← hpass.changed_eq, ← hread.mailbox_eq]
  refine ⟨?_, rfl⟩
  exact { hread with
    mailbox_eq := rfl
    frame := hpass.workbook.frame
    cell_eq := fun p _ => hpass.workbook.cell_eq p
    marked_eq := fun _ hp => hp.elim
    changes := Std.TreeSet.Equiv.rfl
    dirty := fun p _ => hpass.dirty.mem_iff }

end Engine

end Spreadsheet
