import Spreadsheet.Proofs.Edges
import Spreadsheet.Proofs.Evaluating

/-!
# Observing: what a formula can see of the grid

A formula meets its references twice: the graph resolves them when it records what the formula reads, and
evaluation resolves them again, one by one, wherever it comes upon them: as a value, as the one cell of a
range, or as the rows of an argument. `SharesScope` says of two contexts that they differ in nothing but
their grids, and resolve references as one scope does; `AgreesUnder` says that on the cells of some areas
even the grids are the same.

The main statement, `evaluate_eq_of_recorded`, is that evaluation sees no more than was recorded: if the
grids agree under the areas that the graph has recorded for a formula, the formula has the same value in
both contexts, down to messages and origins of errors.
-/

namespace Spreadsheet

namespace EvaluationContext

/-- Two contexts that differ in nothing but their grids, and resolve references as a scope does. -/
structure SharesScope (scope : Scope) (ctx ctx' : EvaluationContext) : Prop where
  resolve : ctx.resolve = scope.resolve
  resolve' : ctx'.resolve = scope.resolve
  locale_eq : ctx.locale = ctx'.locale
  function_eq : ctx.function? = ctx'.function?
  sheetName_eq : ctx.sheetName? = ctx'.sheetName?

/-- The cells of some areas hold the same values in two contexts, and the same ones of them are hidden. -/
def AgreesUnder (areas : List Area) (ctx ctx' : EvaluationContext) : Prop :=
  ∀ a ∈ areas, ∀ p, a.covers p = true →
    ctx.value p = ctx'.value p ∧ ctx.isObscured p = ctx'.isObscured p

variable {ctx ctx' : EvaluationContext}

/-- Where the names of sheets are the same, equal cells are read with equal errors. -/
theorem matchAt_identical (hname : ctx.sheetName? = ctx'.sheetName?) {p : Position}
    (hvalue : ctx.value p = ctx'.value p) (hobscured : ctx.isObscured p = ctx'.isObscured p) :
    ctx.MatchAt ErrorValue.identical ctx' p where
  obscured_eq := hobscured
  value := Value.Matches.of_eq hvalue
  propagated e f h := by
    obtain rfl : e = f := h
    show ctx.propagated e p = ctx'.propagated e p
    unfold propagated
    rw [hname]

/-- Contexts that share a scope and agree under all areas that the references of a formula mean match on
the formula. -/
theorem SharesScope.matchOn {scope : Scope} (h : ctx.SharesScope scope ctx') {sheet : SheetId}
    {references : List (String × Reference)} {areas : List Area}
    (hall : ∀ entry ∈ references, ∃ a ∈ areas, scope.resolve entry.2 sheet = .ok a)
    (hgrid : ctx.AgreesUnder areas ctx') : ctx.MatchOn ErrorValue.identical ctx' sheet references where
  locale_eq := h.locale_eq
  function_eq := h.function_eq
  resolve entry hentry := by
    obtain ⟨a, ha, hr⟩ := hall entry hentry
    refine ⟨a, by rw [h.resolve, hr], by rw [h.resolve', hr], fun p hp => ?_⟩
    exact matchAt_identical h.sheetName_eq (hgrid a ha p hp).1 (hgrid a ha p hp).2

end EvaluationContext

namespace DependencyGraph

/-- A formula that is recorded without an error has an area for each of its references among what is
recorded. -/
theorem exists_recorded_area {g : DependencyGraph} {c : Position} {x : Expr} {scope : Scope}
    (h : (g.rebuild c x scope).2 = none) :
    ∀ entry ∈ x.references,
      ∃ a ∈ (g.rebuild c x scope).1.precedentsOf c, scope.resolve entry.2 c.sheet = .ok a := by
  have hareas : (g.rebuild c x scope).1.precedentsOf c = (linkOf scope c.sheet x).areas := by
    have hlink := link_rebuild g c x scope c
    rw [if_pos rfl] at hlink
    exact congrArg Link.areas hlink
  rw [snd_rebuild] at h
  rw [hareas]
  unfold linkOf
  cases hr : resolveAll scope c.sheet x.references with
  | error e =>
    rw [hr] at h
    cases h
  | ok areas => exact (resolveAll_eq_ok hr).1

/-- **What is recorded of a formula covers everything that it can observe.** Two contexts may differ
wherever they like outside the areas that the graph has recorded: the formula does not notice. -/
theorem evaluate_eq_of_recorded (g : DependencyGraph) (c : Position) (x : Expr) (scope : Scope)
    (hrecorded : (g.rebuild c x scope).2 = none) (ctx ctx' : EvaluationContext)
    (hscope : ctx.SharesScope scope ctx')
    (hgrid : ctx.AgreesUnder ((g.rebuild c x scope).1.precedentsOf c) ctx') :
    evaluate ctx c.sheet x = evaluate ctx' c.sheet x :=
  Value.matches_identical.mp (evaluate_matches (hscope.matchOn (exists_recorded_area hrecorded) hgrid))

/-- `=SUM(A1:A2)*B1` in C1, with A2 hidden in both grids: whether B2 is empty, or hidden with an error behind,
makes no difference to it. -/
theorem evaluate_eq_beside_recorded :
    let sheet : SheetId := ⟨0, 0⟩
    let x : Expr := .binary none .times
      (.call none "SUM" [.reference none "A1:A2" (.range none (.plain 1 1) (.plain 1 2))])
      (.reference none "B1" (.cell none (.plain 2 1)))
    let scope : Scope := ⟨fun _ => none, fun _ => none, 26, 100⟩
    let g : DependencyGraph := (({} : DependencyGraph).rebuild ⟨sheet, 1, 3⟩ x scope).1
    let grid (beside : Value) (hidden : Bool) : EvaluationContext :=
      { locale := .invariant
        resolve := scope.resolve
        sheetName? := fun _ => some "a"
        value := fun p => if p = ⟨sheet, 2, 2⟩ then beside else .boolean true
        isObscured := fun p => p = ⟨sheet, 2, 1⟩ || (hidden && p = ⟨sheet, 2, 2⟩)
        function? := Library.standard.find? }
    let ctx := grid .empty false
    let ctx' := grid (.error Cause.cycle.toError) true
    (({} : DependencyGraph).rebuild ⟨sheet, 1, 3⟩ x scope).2 = none ∧ ctx.SharesScope scope ctx' ∧
      ctx.AgreesUnder (g.precedentsOf ⟨sheet, 1, 3⟩) ctx' ∧
      ctx.value ⟨sheet, 2, 2⟩ ≠ ctx'.value ⟨sheet, 2, 2⟩ ∧
      ctx.isObscured ⟨sheet, 2, 2⟩ ≠ ctx'.isObscured ⟨sheet, 2, 2⟩ ∧
      evaluate ctx sheet x = evaluate ctx' sheet x := by
  intro sheet x scope g grid ctx ctx'
  have hrecorded : (({} : DependencyGraph).rebuild ⟨sheet, 1, 3⟩ x scope).2 = none := by decide +kernel
  have hareas : g.precedentsOf ⟨sheet, 1, 3⟩ =
      [.range sheet (Grid.Rect.span 1 1 1 2), .point ⟨sheet, 1, 2⟩] := by decide +kernel
  have hscope : ctx.SharesScope scope ctx' := ⟨rfl, rfl, rfl, rfl, rfl⟩
  have hgrid : ctx.AgreesUnder (g.precedentsOf ⟨sheet, 1, 3⟩) ctx' := by
    intro a ha p hp
    have hne : p ≠ ⟨sheet, 2, 2⟩ := by
      rintro rfl
      rw [hareas] at ha
      rcases List.mem_cons.mp ha with rfl | ha
      · exact absurd hp (by decide)
      · rw [List.mem_singleton.mp ha] at hp
        exact absurd hp (by decide)
    simp [ctx, ctx', grid, hne]
  exact ⟨hrecorded, hscope, hgrid, by simp [ctx, ctx', grid], by simp [ctx, ctx', grid],
    evaluate_eq_of_recorded {} ⟨sheet, 1, 3⟩ x scope hrecorded ctx ctx' hscope hgrid⟩

end DependencyGraph

end Spreadsheet
