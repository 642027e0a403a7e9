import Spreadsheet.Proofs.Settling
import Spreadsheet.Recalculation.Pass

/-!
# Computing: what the value of a cell is computed from

The value that a pass computes for a cell (`Pass.computedValue`) comes from what the cell holds, and for a
formula that can be evaluated from the cells that it reads. `Workbook.content?` is what a cell holds;
`CellContent.Matches` says that two cells hold the same up to link errors that count as the same.

The main result is `computedValue_matches`: where cells hold the same and their formulas evaluate to the
same, the same is computed, in one workbook at two moments or in two workbooks.
-/

namespace Spreadsheet

open DependencyGraph Relation

namespace Workbook

section Content

variable {w w' : Workbook} {p p' : Position}

/-- The tree and the error without evaluation come from what a cell holds. -/
theorem formula_congr (h : w'.content? p' = w.content? p) :
    w'.tree? p' = w.tree? p ∧ w'.staticKind? p' = w.staticKind? p := by
  unfold content? at h
  unfold tree? staticKind?
  cases hc : w.cell? p with
  | none =>
    rw [hc, Option.map_none, Option.map_eq_none_iff] at h
    rw [h]
    exact ⟨rfl, rfl⟩
  | some c =>
    rw [hc, Option.map_some] at h
    obtain ⟨c', hc', heq⟩ := Option.map_eq_some_iff.mp h
    rw [hc']
    obtain ⟨content, value, flags⟩ := c
    obtain ⟨content', value', flags'⟩ := c'
    obtain rfl : content' = content := heq
    exact ⟨rfl, rfl⟩

end Content

end Workbook

/-- What matches has the same tree. -/
theorem Workbook.tree?_of_rel {E : ErrorValue.Likeness} {w w' : Workbook} {p p' : Position}
    (h : Option.Rel (CellContent.Matches E) (w.content? p) (w'.content? p')) : w'.tree? p' = w.tree? p := by
  unfold content? at h
  unfold tree?
  cases hc : w.cell? p with
  | none =>
    rw [hc] at h
    rw [Option.map_eq_none_iff.mp (eq_none_of_rel_none h)]
  | some c =>
    rw [hc] at h
    obtain ⟨_, hmap, hmatches⟩ := exists_of_rel_some h
    obtain ⟨c', hc', rfl⟩ := Option.map_eq_some_iff.mp hmap
    rw [hc', Option.bind_some, Option.bind_some]
    unfold Cell.tree? Cell.formula?
    rcases hmatches.cases with ⟨v, hv, hv'⟩ | ⟨f, f', hf, hf', hparsed, -⟩
    · rw [hv, hv']
    · rw [hf, hf']
      unfold Formula.tree?
      dsimp only [Option.bind_some]
      rw [hparsed]

theorem Workbook.rel_content? {E : ErrorValue.Likeness} (w : Workbook) (p : Position) :
    Option.Rel (CellContent.Matches E) (w.content? p) (w.content? p) := by
  cases w.content? p with
  | none => exact .none
  | some c => exact .some (.refl c)

namespace Pass

/-- What formulas read in a workbook during a pass. -/
def contextOf (env : Surroundings) (w : Workbook) : EvaluationContext :=
  w.context env.names env.settings env.library

variable {E : ErrorValue.Likeness} {env env' : Surroundings} {w w' : Workbook} {p p' : Position}

section Computed

variable {c : Cell} {f : Formula}

/-- A constant is computed as itself. -/
theorem computedValue_constant {v : Value} (hc : w.cell? p = some c) (hv : c.content = .constant v) :
    computedValue env w p = v := by
  unfold computedValue
  rw [hc]
  dsimp only
  rw [hv]

/-- A formula with an error without evaluation is computed as that error. -/
theorem computedValue_static {e : ErrorValue} (hc : w.cell? p = some c) (hf : c.content = .formula f)
    (he : f.staticError? = some e) : computedValue env w p = .error e := by
  unfold computedValue
  rw [hc]
  dsimp only
  rw [hf]
  dsimp only
  rw [he]

/-- Any other formula that was read is computed as what its tree evaluates to. -/
theorem computedValue_tree {x : Expr} (hc : w.cell? p = some c) (hf : c.content = .formula f)
    (hstatic : f.staticError? = none) (hx : f.tree? = some x) :
    computedValue env w p = evaluate (contextOf env w) p.sheet x := by
  unfold computedValue
  rw [hc]
  dsimp only
  rw [hf]
  dsimp only
  rw [hstatic, hx]
  rfl

/-- A formula that has not been read keeps its value. -/
theorem computedValue_unread (hc : w.cell? p = some c) (hf : c.content = .formula f)
    (hstatic : f.staticError? = none) (hx : f.tree? = none) : computedValue env w p = c.value := by
  unfold computedValue
  rw [hc]
  dsimp only
  rw [hf]
  dsimp only
  rw [hstatic, hx]

/-- A formula is computed as its static error, or as what its tree evaluates to. -/
theorem computedValue_formula (env : Surroundings) (w : Workbook) (p : Position) :
    (∀ k, w.staticKind? p = some k → (computedValue env w p).IsErrorOf k) ∧
      ∀ x, w.staticKind? p = none → w.tree? p = some x →
        computedValue env w p = evaluate (contextOf env w) p.sheet x := by
  constructor
  · intro k hk
    obtain ⟨c, hc, hk⟩ := Option.bind_eq_some_iff.mp hk
    obtain ⟨e, he, rfl⟩ := Option.map_eq_some_iff.mp hk
    obtain ⟨f, hf, he⟩ := Option.bind_eq_some_iff.mp he
    exact ⟨e, computedValue_static hc (Cell.formula?_eq_some.mp hf) he, rfl⟩
  · intro x hstatic hx
    obtain ⟨c, hc, hx⟩ := Option.bind_eq_some_iff.mp hx
    obtain ⟨f, hf, hparsed⟩ := Cell.tree?_eq_some.mp hx
    rw [Workbook.staticKind?_of_cell hc hf, Option.map_eq_none_iff] at hstatic
    exact computedValue_tree hc hf hstatic (Formula.tree?_eq_some.mpr hparsed)

end Computed

/-- **What is computed for a cell** depends on what it holds and on what its formula evaluates to, and for
a formula whose text has not been read on the value it has. -/
theorem computedValue_matches (hcontent : Option.Rel (CellContent.Matches E) (w.content? p) (w'.content? p'))
    (hunread : ∀ f, w.content? p = some (.formula f) → f.staticError? = none → f.tree? = none →
      (w.value p).Matches E (w'.value p'))
    (hread : ∀ x, w.staticKind? p = none → w.tree? p = some x →
      (evaluate (contextOf env w) p.sheet x).Matches E (evaluate (contextOf env' w') p'.sheet x)) :
    (computedValue env w p).Matches E (computedValue env' w' p') := by
  unfold Workbook.content? at hcontent hunread
  cases hc : w.cell? p with
  | none =>
    rw [hc] at hcontent
    cases hc' : w'.cell? p' with
    | none =>
      unfold computedValue
      rw [hc, hc']
      exact Value.Matches.refl _
    | some c' =>
      rw [hc'] at hcontent
      cases hcontent
  | some c =>
    rw [hc] at hcontent hunread
    cases hc' : w'.cell? p' with
    | none =>
      rw [hc'] at hcontent
      cases hcontent
    | some c' =>
      rw [hc'] at hcontent
      obtain ⟨_, hsame, hcontent⟩ := exists_of_rel_some hcontent
      cases hsame
      rcases hcontent.cases with ⟨v, hv, hv'⟩ | ⟨f, f', hf, hf', hparsed, hlink⟩
      · rw [computedValue_constant hc hv, computedValue_constant hc' hv']
        exact Value.Matches.refl v
      have hstatic := Formula.staticError?_matches hparsed hlink
      have htree : f'.tree? = f.tree? := by
        unfold Formula.tree?
        rw [hparsed]
      cases hs : f.staticError? with
      | some e =>
        rw [hs] at hstatic
        obtain ⟨e', hs', he⟩ := exists_of_rel_some hstatic
        rw [computedValue_static hc hf hs, computedValue_static hc' hf' hs']
        exact he
      | none =>
        rw [hs] at hstatic
        have hs' : f'.staticError? = none := eq_none_of_rel_none hstatic
        cases hx : f.tree? with
        | some x =>
          rw [computedValue_tree hc hf hs hx, computedValue_tree hc' hf' hs' (htree.trans hx)]
          refine hread x ?_ (Workbook.tree?_of_cell hc hf (Formula.tree?_eq_some.mp hx))
          rw [Workbook.staticKind?_of_cell hc hf, hs]
          rfl
        | none =>
          rw [computedValue_unread hc hf hs hx, computedValue_unread hc' hf' hs' (htree.trans hx),
            ← Workbook.value_of_cell hc, ← Workbook.value_of_cell hc']
          exact hunread f (congrArg some hf) hs hx

end Pass

end Spreadsheet
