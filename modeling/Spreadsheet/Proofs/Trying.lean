import Spreadsheet.Proofs.Matching
import Spreadsheet.Proofs.Pulling
import Spreadsheet.Proofs.Writing

/-!
# Trying: formulas that are not stored

A formula can be evaluated without being stored. It then reads the values as they are, and its references are
resolved one by one as evaluation comes to them. A formula in a cell is linked before it is evaluated: if one
of its references means nothing, it is not evaluated at all.

To compare the two, a formula is put into a cell that is not stored and that nothing reads. As long as nothing
was dirty, such a formula is a guest (`Engine.Hosts`): it is the only cell that a pass computes, and all other
cells keep their values. The steps of storing it keep that (`hosts_putFormula`, `Hosts.recompute`), and
`Hosts.value_recompute` tells the value that it gets in the end.

The main result is `Reachable.comparesToStored`. Either way the value is the same, errors compared by their
kinds, if the text has a syntax error or all its references mean something. If one means nothing, both values
are errors, but only that of the stored formula is sure to be an invalid reference: evaluation stops at the
first error it meets, which may be another one (`not_agrees_faultBeforeReference`).
-/

namespace Spreadsheet

open Grid DependencyGraph Relation

namespace Engine

/-- A formula was put into a cell that nothing reads: the other cells show what they showed, and no other is
dirty. -/
structure Hosts (p : Position) (parsed : Except ErrorValue Expr) (e e' : Engine) : Prop where
  consistent : e'.Consistent
  settings_eq : e'.settings = e.settings
  library_eq : e'.library = e.library
  names_eq : e'.names = e.names
  frame : e'.workbook.SameFrame e.workbook
  read : ∀ q, q ∉ e'.unread
  clean : ∀ q, q ≠ p → q ∉ e'.dirty
  value_eq : ∀ q, q ≠ p → e'.workbook.value q = e.workbook.value q
  stored : (e'.workbook.cell? p).isSome = true
  tree_eq : e'.workbook.tree? p = parsed.toOption
  static : ∀ problem, parsed = .error problem → e'.workbook.staticKind? p = some problem.kind
  apart : ∀ q, ¬e'.graph.Reads q p

namespace Hosts

variable {p : Position} {parsed : Except ErrorValue Expr} {e e' : Engine}

theorem scope_eq (h : Hosts p parsed e e') : e'.scope = e.scope := by
  unfold scope
  rw [h.names_eq, h.settings_eq]
  exact h.frame.scope_eq e.names e.settings

theorem locate_eq (h : Hosts p parsed e e') (sheet : SheetId) (a : Address)
    (hsheet : e.workbook.contains sheet = true) (hin : a.isWithin e.settings.columns e.settings.rows = true) :
    e'.locate sheet a = .ok (.ofAddress sheet a) := by
  refine locate_of_contains ?_ ?_
  · rw [h.frame.contains_eq]
    exact hsheet
  · rw [h.settings_eq]
    exact hin

/-- The cell lies on no cycle, as nothing reads it. -/
theorem not_onCycle (h : Hosts p parsed e e') : ¬e'.graph.OnCycle p := by
  intro hcycle
  obtain ⟨q, -, hreads⟩ := TransGen.tail'_iff.mp hcycle
  exact h.apart q hreads

/-- A pass over the cell, or over all dirty cells, concerns no other cell. -/
theorem eq_of_prepared (h : Hosts p parsed e e') {scope : PassScope} (hscope : scope = .dirty ∨ scope = .cell p)
    {q : Position} (hq : q ∈ (e'.prepared scope).dirty) : q = p := by
  rcases ((markedBy_prepared e' scope).mem_dirty q).mp hq with hdirty | ⟨hmark, -⟩
  · by_contra hne
    exact h.clean q hne hdirty
  · rcases hscope with rfl | rfl
    · exact absurd hmark List.not_mem_nil
    · rcases (mem_marksOf_cell h.consistent).mp hmark with heq | ⟨hpq, hqp⟩
      · exact heq
      · exact absurd (hpq.trans hqp) h.not_onCycle

/-- Such a pass leaves a guest. -/
theorem recompute (h : Hosts p parsed e e') {scope : PassScope} (hscope : scope = .dirty ∨ scope = .cell p) :
    Hosts p parsed e (e'.recompute scope).1 := by
  obtain ⟨-, hpassed⟩ := passed_recompute h.consistent h.read scope
  have hm := markedBy_prepared e' scope
  obtain ⟨htree, hstatic⟩ := hpassed.formula_eq p
  obtain ⟨htree', hstatic'⟩ := Workbook.formula_congr (hm.content?_eq p)
  constructor
  case consistent => exact consistent_recompute h.consistent scope
  case settings_eq => exact (settings_recompute h.consistent scope).1.trans h.settings_eq
  case library_eq => exact (settings_recompute h.consistent scope).2.trans h.library_eq
  case names_eq => rw [hpassed.names_eq, hm.names_eq, h.names_eq]
  case frame => exact (hpassed.frame.trans hm.frame).trans h.frame
  case read =>
    intro q
    rw [hpassed.unread_eq, hm.unread_eq]
    exact h.read q
  case clean =>
    exact fun q hne hq => hne (h.eq_of_prepared hscope ((hpassed.mem_dirty q).mp hq).1)
  case value_eq =>
    intro q hne
    have hnot : q ∉ (e'.passEnd scope).computed := fun hq =>
      hne (h.eq_of_prepared hscope (hpassed.sound.valid.computed_mem q hq))
    rw [hpassed.value_eq hnot, Workbook.value_congr (hm.core?_eq q)]
    exact h.value_eq q hne
  case stored =>
    rw [hpassed.isSome_cell?, hm.isSome_cell?]
    exact h.stored
  case tree_eq => rw [htree, htree', h.tree_eq]
  case static =>
    intro problem hproblem
    rw [hstatic, hstatic']
    exact h.static problem hproblem
  case apart =>
    rw [hpassed.graph_eq, hm.graph_eq]
    exact h.apart

theorem afterEdit (h : Hosts p parsed e e') : Hosts p parsed e e'.afterEdit := by
  unfold Engine.afterEdit
  split
  · exact h.recompute (Or.inl rfl)
  · exact h

theorem resolves_iff (h : Hosts p parsed e e') {x : Expr} :
    e'.Resolves p.sheet x ↔ ∀ entry ∈ x.references, ∃ a, e.scope.resolve entry.2 p.sheet = .ok a := by
  unfold Resolves
  rw [h.scope_eq]

section Formula

variable {x : Expr} (h : Hosts p parsed e e') (hx : parsed = .ok x)
include h hx

theorem tree?_eq_some : e'.workbook.tree? p = some x := by
  rw [h.tree_eq, hx]
  rfl

/-- A guest evaluates to what it does elsewhere, as none of the cells that it reads is the one it stands in. -/
theorem agrees_evaluate (hkind : e'.workbook.linkKind? p = none) :
    (evaluate e'.context p.sheet x).Agrees (evaluate e.context p.sheet x) := by
  have hcells : ∀ q, e'.graph.Reads p q → e'.context.MatchAt ErrorValue.sameKind e.context q := by
    intro q hreads
    refine ⟨congrFun h.frame.isObscured_eq q, Value.Matches.of_eq (h.value_eq q ?_),
      fun _ _ _ => EvaluationContext.sameKind_propagated _ _ _ _ _ _⟩
    rintro rfl
    exact h.apart q hreads
  have hmatch := matchOn_of_linked (h.consistent.linked p) (h.tree?_eq_some hx) hkind
    (congrArg Settings.locale h.settings_eq.symm) h.library_eq.symm (fun entry _ a ha => h.scope_eq ▸ ha) hcells
  exact Value.matches_sameKind.mp (evaluate_matches hmatch)

end Formula

/-- A pass over the cell evaluates it, in the engine after the pass. -/
theorem evaluated_recompute (h : Hosts p parsed e e') :
    (∀ kind, (e'.recompute (.cell p)).1.workbook.staticKind? p = some kind →
        ((e'.recompute (.cell p)).1.workbook.value p).IsErrorOf kind) ∧
      ∀ x, (e'.recompute (.cell p)).1.workbook.staticKind? p = none →
        (e'.recompute (.cell p)).1.workbook.tree? p = some x →
        ((e'.recompute (.cell p)).1.workbook.value p).Agrees (evaluate (e'.recompute (.cell p)).1.context p.sheet x) := by
  obtain ⟨-, hpassed⟩ := passed_recompute h.consistent h.read (.cell p)
  have hcomputed : p ∈ (e'.passEnd (.cell p)).computed :=
    computed_of_marked h.consistent h.read (Or.inl rfl) h.stored
  have hnot : p ∉ (e'.passEnd (.cell p)).circular := by
    intro hcircular
    have hcycle := (hpassed.sound.valid.marked p hcircular).1
    rw [surroundings_prepared] at hcycle
    exact h.not_onCycle hcycle
  have hevaluated := hpassed.sound.valid.evaluated p hcomputed hnot
  have hcontext : Pass.contextOf (e'.prepared (.cell p)).surroundings (e'.recompute (.cell p)).1.workbook =
      (e'.recompute (.cell p)).1.context := by
    rw [hpassed.context_eq, hpassed.workbook_eq]
  rw [← hpassed.workbook_eq] at hevaluated
  refine ⟨fun kind hkind => hevaluated.static kind hkind, fun x hkind htree => ?_⟩
  have hvalue := hevaluated.evaluated x hkind htree
  rwa [hcontext] at hvalue

/-- **The value that a guest gets.** A syntax error is its value. If all its references mean something, it is
what the formula evaluates to without being stored, and else an invalid reference. -/
theorem value_recompute (h : Hosts p parsed e e') :
    (∀ problem, parsed = .error problem → ((e'.recompute (.cell p)).1.workbook.value p).IsErrorOf problem.kind) ∧
      ∀ x, parsed = .ok x →
        ((∀ entry ∈ x.references, ∃ a, e.scope.resolve entry.2 p.sheet = .ok a) →
          ((e'.recompute (.cell p)).1.workbook.value p).Agrees (evaluate e.context p.sheet x)) ∧
        (∀ entry ∈ x.references, (∀ a, e.scope.resolve entry.2 p.sheet ≠ .ok a) →
          ((e'.recompute (.cell p)).1.workbook.value p).IsErrorOf .invalidReference) := by
  obtain ⟨hstatic, hevaluated⟩ := h.evaluated_recompute
  have hafter := h.recompute (Or.inr rfl : PassScope.cell p = .dirty ∨ _)
  refine ⟨fun problem hproblem => hstatic _ (hafter.static problem hproblem), fun x hx => ?_⟩
  have htree := hafter.tree?_eq_some hx
  have hlinked := hafter.consistent.linked p
  refine ⟨fun hresolved => ?_, fun entry hentry hnone => ?_⟩
  · obtain ⟨-, -, hkind⟩ := linked_of_resolves hlinked htree (hafter.resolves_iff.mpr hresolved)
    exact (hevaluated x ((staticKind?_eq_linkKind? htree).trans hkind) htree).trans (hafter.agrees_evaluate hx hkind)
  · have hdangling : ¬(e'.recompute (.cell p)).1.Resolves p.sheet x := fun hresolves => by
      obtain ⟨a, ha⟩ := hafter.resolves_iff.mp hresolves entry hentry
      exact hnone a ha
    obtain ⟨-, -, hkind⟩ := linked_of_not_resolves hlinked htree hdangling
    exact hstatic _ ((staticKind?_eq_linkKind? htree).trans hkind)

end Hosts

/-! ### Putting a formula into a cell that nothing reads -/

section Store

variable {e e₁ : Engine} {p : Position} {text : String}

section Linked

variable (hrewritten : Rewritten p e e₁)
  (hcell : e₁.workbook.cell? p = some (Cell.formula text (e.readFormula text)))
  (hedit : Edit some e e₁ [p] [p])
include hedit

/-- Linking a cell and marking it leaves what all cells hold and show. -/
theorem core?_linked (q : Position) :
    ((e₁.relinkAll [p]).markDirty [p]).workbook.core? q = e₁.workbook.core? q :=
  (hedit.finished.2.core?_eq q).trans ((upToLinks_relinkAll e₁ [p]).core?_eq q)

include hcell

theorem tree?_linked :
    ((e₁.relinkAll [p]).markDirty [p]).workbook.tree? p = (e.readFormula text).toOption := by
  rw [Workbook.tree?_congr (core?_linked hedit p)]
  unfold Workbook.tree?
  rw [hcell]
  show (Cell.formula text (e.readFormula text)).tree? = _
  cases e.readFormula text <;> rfl

/-- A formula with a syntax error has no link error, so the syntax error is its value. -/
theorem staticKind?_linked {problem : ErrorValue} (hproblem : e.readFormula text = .error problem) :
    ((e₁.relinkAll [p]).markDirty [p]).workbook.staticKind? p = some problem.kind := by
  have hkind := (hedit.consistent.linked p).kind_eq
  unfold linkAt at hkind
  rw [tree?_linked hcell hedit, hproblem] at hkind
  have hlink : ((e₁.relinkAll [p]).markDirty [p]).workbook.linkKind? p = e₁.workbook.linkKind? p := by
    rw [Workbook.linkKind?_of_cell hcell rfl]
    exact hkind
  rw [Workbook.staticKind?_congr (core?_linked hedit p) hlink, Workbook.staticKind?_of_cell hcell rfl, hproblem]
  rfl

include hrewritten

/-- The cell is not read by its own formula, and every other formula reads what it read before. -/
theorem not_reads_linked (h : e.Consistent) (hapart : ∀ q, ¬e.graph.Reads q p)
    (hself : ∀ x, e.readFormula text = .ok x → ∀ entry ∈ x.references, ∀ a,
      e.scope.resolve entry.2 p.sheet = .ok a → a.covers p = false) (q : Position) :
    ¬((e₁.relinkAll [p]).markDirty [p]).graph.Reads q p := by
  intro hreads
  obtain ⟨a, ha, hcovers⟩ := hedit.reads_iff.mp hreads
  by_cases hqp : q = p
  · subst hqp
    obtain ⟨x, hx, entry, hentry, hmeans⟩ := exists_reference_of_mem_areas ha
    rw [hrewritten.scope_eq] at hmeans
    rw [Workbook.tree?_congr (core?_linked hedit q).symm, tree?_linked hcell hedit] at hx
    cases hparsed : e.readFormula text with
    | error problem =>
      rw [hparsed] at hx
      cases hx
    | ok y =>
      rw [hparsed] at hx
      cases hx
      rw [hself _ hparsed entry hentry a hmeans] at hcovers
      cases hcovers
  · have hlinkAt : e₁.linkAt q = e.linkAt q := by
      unfold linkAt Workbook.tree?
      rw [hrewritten.cell_eq q hqp, hrewritten.scope_eq]
    rw [hlinkAt] at ha
    exact hapart q ((reads_iff_wouldRead (h.linked q)).mpr ⟨a, ha, hcovers⟩)

theorem hosts_linked (h : e.Consistent) (hclean : ∀ q, q ∉ e.dirty) (hunread : p ∉ e₁.unread)
    (hapart : ∀ q, ¬e.graph.Reads q p)
    (hself : ∀ x, e.readFormula text = .ok x → ∀ entry ∈ x.references, ∀ a,
      e.scope.resolve entry.2 p.sheet = .ok a → a.covers p = false) :
    Hosts p (e.readFormula text) e ((e₁.relinkAll [p]).markDirty [p]) := by
  obtain ⟨-, hm⟩ := hedit.finished
  have hup := upToLinks_relinkAll e₁ [p]
  have hreads := not_reads_linked hrewritten hcell hedit h hapart hself
  constructor
  case consistent => exact hedit.consistent
  case settings_eq => rw [hm.settings_eq, hup.settings_eq, hrewritten.settings_eq]
  case library_eq => rw [hm.library_eq, hup.library_eq, hedit.library_eq]
  case names_eq => rw [hm.names_eq, hup.names_eq, hrewritten.names_eq]
  case frame => exact (hm.frame.trans hup.frame).trans hrewritten.frame
  case read =>
    intro q hq
    rw [hedit.unread_eq] at hq
    by_cases hqp : q = p
    · subst hqp
      exact hunread hq
    · exact hclean q (h.unread q ((hrewritten.unread_iff q hqp).mp hq))
  case clean =>
    intro q hqp hq
    rcases hedit.mem_dirty.mp hq with hq | ⟨-, r, hr, hway⟩
    · exact hclean q ((hrewritten.dirty_iff q hqp).mp hq)
    · cases List.mem_singleton.mp hr
      rcases ReflTransGen.cases_tail hway with heq | ⟨r, -, hlast⟩
      · exact hqp heq.symm
      · exact hreads r hlast
  case value_eq =>
    intro q hqp
    rw [Workbook.value_congr (core?_linked hedit q), Workbook.value_eq, hrewritten.cell_eq q hqp,
      ← Workbook.value_eq]
  case stored =>
    rw [hm.isSome_cell?, hup.isSome_cell?, hcell]
    rfl
  case tree_eq => exact tree?_linked hcell hedit
  case static => exact fun problem => staticKind?_linked hcell hedit
  case apart => exact hreads

end Linked

/-- **A formula that is put into such a cell is a guest**, if it does not read the cell itself. -/
theorem hosts_putFormula (h : e.Consistent) (hclean : ∀ q, q ∉ e.dirty)
    (hsheet : e.workbook.contains p.sheet = true) (hfree : e.workbook.cell? p = none)
    (hapart : ∀ q, ¬e.graph.Reads q p)
    (hself : ∀ x, e.readFormula text = .ok x → ∀ entry ∈ x.references, ∀ a,
      e.scope.resolve entry.2 p.sheet = .ok a → a.covers p = false) :
    Hosts p (e.readFormula text) e (e.putFormula p text) := by
  let c := Cell.formula text (e.readFormula text)
  let e₁ := (e.take p).store p c
  have hput : e.putFormula p text = ((e₁.relinkAll [p]).markDirty [p]).afterEdit := by
    unfold putFormula
    rw [hfree]
    rfl
  obtain ⟨-, -, -, hunread, -⟩ := take_spec h p
  have hrewritten : Rewritten p e e₁ := (rewritten_take h p (e.take p).changes).store c
  have hcell : e₁.workbook.cell? p = some c :=
    cell_store (e := e.take p) (by rw [(rewritten_take h p {}).frame.contains_eq]; exact hsheet) c
  have horderly : c.IsOrderly e.readFormula := by
    refine ⟨fun v hv => ?_, fun f hf => ?_, rfl, Cell.errorMarkAgrees_formula _ _⟩
    · cases hv
    · cases hf
      exact Or.inr rfl
  have hedit : Edit some e e₁ [p] [p] := by
    refine edit_store h p (e.take p).changes hsheet horderly rfl [p]
      (Or.inr ⟨List.mem_singleton.mpr rfl, fun f hf => ?_⟩)
    cases hf
    exact Option.some_ne_none _
  rw [hput]
  exact (hosts_linked hrewritten hcell hedit h hclean hunread hapart hself).afterEdit

end Store

/-! ### The two values -/

/-- How the value of a text that is not stored compares to its value in a cell. Unless a reference means
nothing, they are the same, errors compared by their kinds. Otherwise both are errors, and the one in the cell
is an invalid reference. -/
structure ComparesToStored (e : Engine) (sheet : SheetId) (text : String) (v w : Value) : Prop where
  agrees : (∀ x, e.readFormula text = .ok x → ∀ entry ∈ x.references, ∃ a,
    e.scope.resolve entry.2 sheet = .ok a) → v.Agrees w
  unresolved : ∀ x, e.readFormula text = .ok x → ∀ entry ∈ x.references,
    (∀ a, e.scope.resolve entry.2 sheet ≠ .ok a) → v.isError = true ∧ w.IsErrorOf .invalidReference

/-- The value of a formula that is not stored. -/
theorem evaluateExpression_eq {e : Engine} {sheet : SheetId} {text : String}
    (hsheet : e.workbook.contains sheet = true) (htext : isFormulaText text = true) :
    e.evaluateExpression sheet text = .ok (match e.readFormula text with
      | .error problem => .error problem
      | .ok x => evaluate e.context sheet x) := by
  obtain ⟨s, hs⟩ := Option.isSome_iff_exists.mp hsheet
  unfold evaluateExpression Workbook.get
  rw [hs, htext]
  show (match e.readFormula text with | .error problem => _ | .ok x => _) = _
  cases e.readFormula text <;> rfl

/-- **A formula that is not stored has the value that it would have in a cell**, as long as its references mean
something. In a reachable engine without dirty cells, take a cell in the grid that is not stored, that no
formula reads and that the formula does not read either. Then the formula can be evaluated by itself, and it
can be put into the cell and evaluated there. -/
theorem Reachable.comparesToStored {library : Library} {e : Engine} (h : Reachable library e)
    (hclean : ∀ q, q ∉ e.dirty) {sheet : SheetId} {a : Address} {text : String}
    (hsheet : e.workbook.contains sheet = true)
    (hin : a.isWithin e.settings.columns e.settings.rows = true) (htext : isFormulaText text = true)
    (hfree : e.workbook.cell? (.ofAddress sheet a) = none)
    (hapart : ∀ q, q ∉ e.graph.readersOf (.ofAddress sheet a))
    (hself : ∀ x, e.readFormula text = .ok x → ∀ entry ∈ x.references, ∀ area,
      e.scope.resolve entry.2 sheet = .ok area → area.covers (.ofAddress sheet a) = false) :
    ∃ v w, e.evaluateExpression sheet text = .ok v ∧ (e.setFormula sheet a text).result = .ok () ∧
      ((e.after (.setFormula sheet a text)).evaluateCell sheet a).result = .ok w ∧
      e.ComparesToStored sheet text v w := by
  let p := Position.ofAddress sheet a
  have hset : e.setFormula sheet a text = ⟨e.putFormula p text, .ok ()⟩ := by
    unfold setFormula edit
    rw [locate_of_contains hsheet hin, perform_ok]
    dsimp only
    rw [if_pos htext]
  have hafter : e.after (.setFormula sheet a text) = e.putFormula p text := congrArg Reply.engine hset
  have hhosts : Hosts p (e.readFormula text) e (e.putFormula p text) :=
    hosts_putFormula h.consistent hclean hsheet hfree
      (fun q hreads => hapart q ((mem_readersOf h.consistent.symmetric).mpr hreads)) hself
  obtain ⟨hproblem, hvalue⟩ := hhosts.value_recompute
  have hevaluated : ((e.after (.setFormula sheet a text)).evaluateCell sheet a).result =
      .ok (((e.putFormula p text).recompute (.cell p)).1.workbook.value p) := by
    rw [hafter]
    unfold evaluateCell
    rw [hhosts.locate_eq sheet a hsheet hin]
    rfl
  refine ⟨_, _, evaluateExpression_eq hsheet htext, congrArg Reply.result hset, hevaluated, ?_⟩
  cases hparsed : e.readFormula text with
  | error problem =>
    obtain ⟨shown, hshown, hkind⟩ := hproblem problem hparsed
    rw [hshown]
    exact ⟨fun _ => hkind.symm, fun x hx => by rw [hparsed] at hx; cases hx⟩
  | ok x =>
    obtain ⟨hagrees, hunresolved⟩ := hvalue x hparsed
    constructor
    · exact fun hall => (hagrees (hall x hparsed)).symm
    · intro y hy entry hentry hnone
      rw [hparsed] at hy
      cases hy
      exact ⟨isError_evaluate_of_unresolved hentry hnone, hunresolved entry hentry hnone⟩

/-- Calls that leave two texts, one of them joined from the other, and nothing dirty. -/
def joinedTexts : List Call :=
  [.addSheet "S", .setFormula ⟨0, 0⟩ (.plain 1 1) "ab", .setFormula ⟨0, 0⟩ (.plain 2 1) "=A1&A1",
    .recalculate .dirty]

/-- Every reference of a text means areas without the cell, if it means any: this can be computed. -/
theorem covers_eq_false_of_all {e : Engine} {sheet : SheetId} {text : String} {p : Position}
    (h : ((e.readFormula text).toOption.all fun x => x.references.all fun entry =>
      (e.scope.resolve entry.2 sheet).toOption.all fun area => !area.covers p) = true) (x : Expr)
    (hx : e.readFormula text = .ok x) (entry : String × Reference) (hentry : entry ∈ x.references) (area : Area)
    (ha : e.scope.resolve entry.2 sheet = .ok area) : area.covers p = false := by
  rw [hx] at h
  have hall := List.all_eq_true.mp h entry hentry
  rw [ha] at hall
  simpa [Except.toOption] using hall

/-- A text joined from both is compared to what a free cell makes of it. -/
theorem comparesToStored_joinedTexts :
    let e := (start {} .standard).run joinedTexts
    Reachable .standard e ∧ (∀ q, q ∉ e.dirty) ∧ e.workbook.cell? ⟨⟨0, 0⟩, 3, 3⟩ = none ∧
      ∃ v w, e.evaluateExpression ⟨0, 0⟩ "=B1&A1" = .ok v ∧
        (e.setFormula ⟨0, 0⟩ (.plain 3 3) "=B1&A1").result = .ok () ∧
        ((e.after (.setFormula ⟨0, 0⟩ (.plain 3 3) "=B1&A1")).evaluateCell ⟨0, 0⟩ (.plain 3 3)).result = .ok w ∧
        e.ComparesToStored ⟨0, 0⟩ "=B1&A1" v w := by
  have hreachable : Reachable .standard ((start {} .standard).run joinedTexts) :=
    (Reachable.start {} ⟨by decide, by decide⟩).run joinedTexts
  have hclean : ∀ q, q ∉ ((start {} .standard).run joinedTexts).dirty :=
    not_mem_of_toList_eq_nil (by decide +kernel)
  have hfree : (((start {} .standard).run joinedTexts).workbook.cell? ⟨⟨0, 0⟩, 3, 3⟩).isNone = true := by
    decide +kernel
  have hnone := Option.isNone_iff_eq_none.mp hfree
  exact ⟨hreachable, hclean, hnone, hreachable.comparesToStored hclean (by decide +kernel) (by decide +kernel)
    (by decide +kernel) hnone (not_mem_of_toList_eq_nil (by decide +kernel))
    (covers_eq_false_of_all (by decide +kernel))⟩

/-! ### A fault before a reference that means nothing -/

theorem exists_isErrorOf {r : Except EngineError Value} {k : ErrorKind}
    (h : r.toOption.bind Value.errorKind? = some k) : ∃ v, r = .ok v ∧ v.IsErrorOf k := by
  cases r with
  | error problem => cases h
  | ok v => exact ⟨v, rfl, Value.errorKind?_eq_some.mp h⟩

/-- **A formula with a fault of its own before a reference that means nothing** has the error of its fault when
it is not stored, and an invalid reference in a cell. -/
theorem not_agrees_faultBeforeReference :
    let e := (start {} .standard).run [.addSheet "a"]
    Reachable .standard e ∧ (∀ q, q ∉ e.dirty) ∧ e.workbook.contains ⟨0, 0⟩ = true ∧
      (.plain 1 1 : Address).isWithin e.settings.columns e.settings.rows = true ∧
      isFormulaText "=FOO(Missing!A1)" = true ∧ e.workbook.cell? ⟨⟨0, 0⟩, 1, 1⟩ = none ∧
      (∀ q, q ∉ e.graph.readersOf ⟨⟨0, 0⟩, 1, 1⟩) ∧
      (∀ x, e.readFormula "=FOO(Missing!A1)" = .ok x → ∀ entry ∈ x.references, ∀ area,
        e.scope.resolve entry.2 ⟨0, 0⟩ = .ok area → area.covers ⟨⟨0, 0⟩, 1, 1⟩ = false) ∧
      ∃ v w, e.evaluateExpression ⟨0, 0⟩ "=FOO(Missing!A1)" = .ok v ∧
        ((e.after (.setFormula ⟨0, 0⟩ (.plain 1 1) "=FOO(Missing!A1)")).evaluateCell ⟨0, 0⟩
          (.plain 1 1)).result = .ok w ∧
        v.IsErrorOf .unknownFunction ∧ w.IsErrorOf .invalidReference ∧ ¬v.Agrees w := by
  obtain ⟨v, hv, hvkind⟩ : ∃ v, ((start {} .standard).run [.addSheet "a"]).evaluateExpression ⟨0, 0⟩
      "=FOO(Missing!A1)" = .ok v ∧ v.IsErrorOf .unknownFunction := exists_isErrorOf (by decide +kernel)
  obtain ⟨w, hw, hwkind⟩ : ∃ w, ((((start {} .standard).run [.addSheet "a"]).after
      (.setFormula ⟨0, 0⟩ (.plain 1 1) "=FOO(Missing!A1)")).evaluateCell ⟨0, 0⟩ (.plain 1 1)).result = .ok w ∧
        w.IsErrorOf .invalidReference := exists_isErrorOf (by decide +kernel)
  have hfree : (((start {} .standard).run [.addSheet "a"]).workbook.cell? ⟨⟨0, 0⟩, 1, 1⟩).isNone = true := by
    decide +kernel
  refine ⟨(Reachable.start {} ⟨by decide, by decide⟩).run [.addSheet "a"],
    not_mem_of_toList_eq_nil (by decide +kernel), by decide +kernel, by decide +kernel, by decide +kernel,
    Option.isNone_iff_eq_none.mp hfree, not_mem_of_toList_eq_nil (by decide +kernel),
    covers_eq_false_of_all (by decide +kernel), v, w, hv, hw, hvkind, hwkind, fun hagrees => ?_⟩
  obtain ⟨problem, rfl, hvkind⟩ := hvkind
  obtain ⟨problem', rfl, hwkind⟩ := hwkind
  exact absurd (hvkind.symm.trans (Eq.trans hagrees hwkind)) (by decide)

end Engine

end Spreadsheet
