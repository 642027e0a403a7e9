import Spreadsheet.Proofs.Evaluating

/-!
# Faults: the error of a formula that merely reads errors

The value of a formula that reads an error is an error, but not every such error says so: a fault of the
formula itself may come first. A formula has no fault of its own if it evaluates as soon as the errors on
the grid are replaced by suitable values (`EvaluationContext.IsFaultless`). The error of such a formula is
that of a cell it has read:

* `evaluateExpr_or_referenced` — evaluation gives what it gives with the values replaced, or stops at a
  cell with an error, by induction on the tree;
* `kind_evaluate_of_reads` — so a formula without a fault that reads an error has an error in a referenced
  cell for its value.
-/

namespace Spreadsheet

open Grid

/-- The result, or the error of a cell that was read. -/
def IsOrReferenced {α : Type} (r : Except ErrorValue α) (a : α) : Prop :=
  r = .ok a ∨ ∃ e, r = .error e ∧ e.kind = .referencedCell

theorem IsOrReferenced.map {α β : Type} {r : Except ErrorValue α} {a : α} (h : IsOrReferenced r a)
    (f : α → β) : IsOrReferenced (r.map f) (f a) := by
  rcases h with rfl | ⟨e, rfl, hk⟩
  · exact Or.inl rfl
  · exact Or.inr ⟨e, rfl, hk⟩

namespace EvaluationContext

/-- The context with other values. -/
def withValues (ctx : EvaluationContext) (w : Position → Value) : EvaluationContext := { ctx with value := w }

variable {ctx : EvaluationContext} {w : Position → Value} {sheet : SheetId}

theorem readPoint_or_referenced (hw : ∀ p, (ctx.value p).isError = false → w p = ctx.value p)
    {p : Position} {v : Value} (h : (ctx.withValues w).readPoint p = .ok v) :
    IsOrReferenced (ctx.readPoint p) v := by
  unfold readPoint at h ⊢
  have hobscured : (ctx.withValues w).isObscured p = ctx.isObscured p := rfl
  rw [hobscured] at h
  split
  · next hhidden =>
    rw [if_pos hhidden] at h
    exact Or.inl h
  · next hseen =>
    rw [if_neg hseen] at h
    cases herror : (ctx.value p).isError with
    | true =>
      obtain ⟨e, he⟩ := Value.isError_eq_true herror
      rw [he]
      exact Or.inr ⟨_, rfl, kind_propagated ctx e p⟩
    | false =>
      have hvalue : (ctx.withValues w).value p = ctx.value p := hw p herror
      rw [hvalue] at h
      left
      cases hp : ctx.value p with
      | error e =>
        rw [hp] at herror
        cases herror
      | _ =>
        rw [hp] at h
        exact h

theorem readRow_or_referenced (hw : ∀ p, (ctx.value p).isError = false → w p = ctx.value p) {row : Nat}
    {cols : List Nat} {vs : List Value} (h : (ctx.withValues w).readRow sheet row cols = .ok vs) :
    IsOrReferenced (ctx.readRow sheet row cols) vs := by
  induction cols generalizing vs with
  | nil => exact Or.inl h
  | cons col cols ih =>
    have hobscured : (ctx.withValues w).isObscured ⟨sheet, row, col⟩ = ctx.isObscured ⟨sheet, row, col⟩ := rfl
    rw [readRow_cons, hobscured] at h
    rw [readRow_cons]
    split
    · next hhidden =>
      rw [if_pos hhidden] at h
      exact ih h
    · next hseen =>
      rw [if_neg hseen] at h
      split at h
      · cases h
      next v hv =>
      split at h
      · cases h
      next vs' hvs =>
      cases h
      rcases readPoint_or_referenced hw hv with hpoint | ⟨e, hpoint, hk⟩ <;> rw [hpoint]
      · rcases ih hvs with hrest | ⟨e, hrest, hk⟩ <;> rw [hrest]
        · exact Or.inl rfl
        · exact Or.inr ⟨e, rfl, hk⟩
      · exact Or.inr ⟨e, rfl, hk⟩

theorem readRows_or_referenced (hw : ∀ p, (ctx.value p).isError = false → w p = ctx.value p)
    {cols rows : List Nat} {vss : List (List Value)}
    (h : (ctx.withValues w).readRows sheet cols rows = .ok vss) :
    IsOrReferenced (ctx.readRows sheet cols rows) vss := by
  induction rows generalizing vss with
  | nil => exact Or.inl h
  | cons row rows ih =>
    rw [readRows] at h ⊢
    split at h
    · cases h
    next vs hvs =>
    split at h
    · cases h
    next rest hrest =>
    cases h
    rcases readRow_or_referenced hw hvs with hrow | ⟨e, hrow, hk⟩ <;> rw [hrow]
    · rcases ih hrest with hrows | ⟨e, hrows, hk⟩ <;> rw [hrows]
      · exact Or.inl rfl
      · exact Or.inr ⟨e, rfl, hk⟩
    · exact Or.inr ⟨e, rfl, hk⟩

theorem readReference_or_referenced (hw : ∀ p, (ctx.value p).isError = false → w p = ctx.value p)
    {written : String} {r : Reference} {v : Value}
    (h : (ctx.withValues w).readReference written r sheet = .ok v) :
    IsOrReferenced (ctx.readReference written r sheet) v := by
  have harea : (ctx.withValues w).area written r sheet = ctx.area written r sheet := rfl
  unfold readReference at h ⊢
  rw [harea] at h
  split at h
  · cases h
  · exact readPoint_or_referenced hw h
  · split at h
    · next hsingle =>
      rw [if_pos hsingle]
      exact readPoint_or_referenced hw h
    · cases h

theorem argument_or_referenced (hw : ∀ p, (ctx.value p).isError = false → w p = ctx.value p) {x : Expr}
    (hx : ∀ v, evaluateExpr (ctx.withValues w) sheet x = .ok v → IsOrReferenced (evaluateExpr ctx sheet x) v)
    {a : Argument} (h : (ctx.withValues w).argument sheet x = .ok a) :
    IsOrReferenced (ctx.argument sheet x) a := by
  have hvalue : ∀ {r r' : Except ErrorValue Value}, (∀ v, r' = .ok v → IsOrReferenced r v) →
      r'.map Argument.value = .ok a → IsOrReferenced (r.map Argument.value) a := by
    intro r r' hr h
    cases hr' : r' with
    | error e =>
      rw [hr'] at h
      cases h
    | ok v =>
      rw [hr'] at h
      cases h
      exact (hr v hr').map Argument.value
  cases x with
  | reference span written r =>
    have harea : (ctx.withValues w).area written r sheet = ctx.area written r sheet := rfl
    unfold argument rangeArgument? at h ⊢
    dsimp only at h ⊢
    rw [harea] at h
    cases hr : ctx.area written r sheet with
    | error e =>
      rw [hr] at h
      cases h
    | ok area =>
      rw [hr] at h
      cases area with
      | point p => exact hvalue hx h
      | range id rect =>
        dsimp only at h ⊢
        cases hrows : (ctx.withValues w).readRange id rect with
        | error e =>
          rw [hrows] at h
          cases h
        | ok vss =>
          rw [hrows] at h
          cases h
          exact IsOrReferenced.map (readRows_or_referenced hw hrows) Argument.range
  | literal span v => exact hvalue hx h
  | unary span op y => exact hvalue hx h
  | binary span op l r => exact hvalue hx h
  | call span name xs => exact hvalue hx h

end EvaluationContext

variable {ctx : EvaluationContext} {w : Position → Value} {sheet : SheetId}

mutual

/-- **A formula gives what it gives with other values in place of the errors, or the error of a cell that
it reads.** The induction follows the tree: as long as no cell with an error has been met, both
evaluations have the same operands. -/
theorem evaluateExpr_or_referenced (hw : ∀ p, (ctx.value p).isError = false → w p = ctx.value p) :
    (x : Expr) → ∀ v, evaluateExpr (ctx.withValues w) sheet x = .ok v →
      IsOrReferenced (evaluateExpr ctx sheet x) v
  | .literal span u, v, h => by
    left
    rw [← h]
    cases u <;> simp only [evaluateExpr]
  | .reference span written r, v, h => by
    rw [evaluateExpr] at h ⊢
    exact EvaluationContext.readReference_or_referenced hw h
  | .unary span op x, v, h => by
    rw [evaluateExpr] at h ⊢
    split at h
    · cases h
    next u hu =>
    rcases evaluateExpr_or_referenced hw x u hu with hx | ⟨e, hx, hk⟩ <;> rw [hx]
    · exact Or.inl h
    · exact Or.inr ⟨e, rfl, hk⟩
  | .binary span op l r, v, h => by
    rw [evaluateExpr] at h ⊢
    split at h
    · cases h
    next u hu =>
    split at h
    · cases h
    next u' hu' =>
    rcases evaluateExpr_or_referenced hw l u hu with hl | ⟨e, hl, hk⟩ <;> rw [hl]
    · rcases evaluateExpr_or_referenced hw r u' hu' with hr | ⟨e, hr, hk⟩ <;> rw [hr]
      · exact Or.inl h
      · exact Or.inr ⟨e, rfl, hk⟩
    · exact Or.inr ⟨e, rfl, hk⟩
  | .call span name xs, v, h => by
    rw [evaluateExpr] at h ⊢
    have hcallee : (ctx.withValues w).callee name xs.length = ctx.callee name xs.length := rfl
    rw [hcallee] at h
    split at h
    · cases h
    split at h
    · cases h
    next args hargs =>
    rcases evaluateArguments_or_referenced hw xs args hargs with hxs | ⟨e, hxs, hk⟩ <;> rw [hxs]
    · exact Or.inl h
    · exact Or.inr ⟨e, rfl, hk⟩

/-- The same of the arguments of a call. -/
theorem evaluateArguments_or_referenced (hw : ∀ p, (ctx.value p).isError = false → w p = ctx.value p) :
    (xs : List Expr) → ∀ args, evaluateArguments (ctx.withValues w) sheet xs = .ok args →
      IsOrReferenced (evaluateArguments ctx sheet xs) args
  | [], args, h => Or.inl h
  | x :: xs, args, h => by
    have hx := evaluateExpr_or_referenced hw x
    rw [EvaluationContext.evaluateArguments_cons] at h ⊢
    split at h
    · cases h
    next a ha =>
    split at h
    · cases h
    next rest hrest =>
    cases h
    rcases EvaluationContext.argument_or_referenced hw hx ha with hfirst | ⟨e, hfirst, hk⟩ <;> rw [hfirst]
    · rcases evaluateArguments_or_referenced hw xs rest hrest with hxs | ⟨e, hxs, hk⟩ <;> rw [hxs]
      · exact Or.inl rfl
      · exact Or.inr ⟨e, rfl, hk⟩
    · exact Or.inr ⟨e, rfl, hk⟩

end

/-- A formula has no fault of its own: it evaluates with some values in place of the errors. -/
def EvaluationContext.IsFaultless (ctx : EvaluationContext) (sheet : SheetId) (x : Expr) : Prop :=
  ∃ w : Position → Value, (∀ p, (ctx.value p).isError = false → w p = ctx.value p) ∧
    ∃ v, evaluateExpr (ctx.withValues w) sheet x = .ok v

/-- **A formula that merely reads an error has an error in a referenced cell for its value.** -/
theorem kind_evaluate_of_reads {x : Expr} (hfault : ctx.IsFaultless sheet x) {entry : String × Reference}
    (hentry : entry ∈ x.references) {a : Area} (ha : ctx.resolve entry.2 sheet = .ok a) {p : Position}
    (hp : a.covers p = true) (hseen : ctx.isObscured p = false) (herror : (ctx.value p).isError = true) :
    ∃ e, evaluate ctx sheet x = .error e ∧ e.kind = .referencedCell := by
  obtain ⟨w, hw, v, hv⟩ := hfault
  unfold evaluate
  rcases evaluateExpr_or_referenced hw x v hv with hx | ⟨e, hx, hk⟩
  · have hclean := evaluateExpr_reads x v hx entry hentry a ha p hp hseen
    rw [herror] at hclean
    cases hclean
  · rw [hx]
    exact ⟨e, rfl, hk⟩

end Spreadsheet
