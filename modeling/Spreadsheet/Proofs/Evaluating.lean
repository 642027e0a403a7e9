import Spreadsheet.Evaluation.Basic
import Spreadsheet.Proofs.Resolving

/-!
# Evaluating: what the value of a formula depends on

The value of a formula depends on the cells that its references mean, and on nothing else of the grid.
`EvaluationContext.MatchOn` says that two contexts match on these cells, up to errors that count as the same
(`ErrorValue.Likeness`): those of the same kind, say, or none but equal ones. Then the formula evaluates to
the same in both, again up to such errors:

* `evaluateExpr_matches` — the two evaluations match, by induction on the tree;
* `evaluate_matches` — so do the values that are stored for it.

A formula that evaluates without error has read all its references (`canRead_of_evaluateExpr`). So an error is
never swallowed (`evaluateExpr_reads`): a formula that reads a cell with an error, one that no merged region
hides, has an error for its value, and so has one with a reference that means nothing.
-/

namespace Spreadsheet

open Grid

/-! ### Values and results up to errors -/

/-- The same value, or errors of the same kind. -/
def Value.Agrees : Value → Value → Prop
  | .error e, .error f => e.kind = f.kind
  | v, w => v = w

/-- Which errors count as the same. What one gets for reading such errors in one cell counts as the same
again. -/
structure ErrorValue.Likeness extends Setoid ErrorValue where
  propagated : ∀ {e f : ErrorValue} (sheet : Option String) (col row : Nat), r e f →
    r (e.propagated sheet col row) (f.propagated sheet col row)

/-- Errors count as the same if they are of the same kind. -/
def ErrorValue.sameKind : ErrorValue.Likeness where
  r e f := e.kind = f.kind
  iseqv := ⟨fun _ => rfl, Eq.symm, Eq.trans⟩
  propagated sheet col row _ := by rw [ErrorValue.kind_propagated, ErrorValue.kind_propagated]

/-- Errors count as the same only if nothing tells them apart. -/
def ErrorValue.identical : ErrorValue.Likeness where
  r := Eq
  iseqv := eq_equivalence
  propagated sheet col row h := by rw [h]

/-- The same value, or errors that count as the same. -/
def Value.Matches (E : ErrorValue.Likeness) : Value → Value → Prop
  | .error e, .error f => E.r e f
  | v, w => v = w

/-- The same result, or errors that count as the same. -/
def ResultsMatch (E : ErrorValue.Likeness) {α : Type} : Except ErrorValue α → Except ErrorValue α → Prop
  | .ok a, .ok b => a = b
  | .error e, .error f => E.r e f
  | _, _ => False

namespace Value

theorem isError_eq_true {v : Value} (h : v.isError = true) : ∃ e, v = .error e := by
  cases v <;> first | exact ⟨_, rfl⟩ | cases h

section Matches

variable {E : ErrorValue.Likeness} {u v w : Value}

theorem Matches.refl (v : Value) : v.Matches E v := by
  cases v <;> first | rfl | exact E.iseqv.refl _

theorem Matches.of_eq (h : v = w) : v.Matches E w := h ▸ Matches.refl v

theorem Matches.symm (h : v.Matches E w) : w.Matches E v := by
  cases v <;> cases w <;> first | exact E.iseqv.symm h | exact Eq.symm h

theorem Matches.isError_eq (h : v.Matches E w) : v.isError = w.isError := by
  cases v <;> cases w <;> first | rfl | cases h

/-- Values that match and are no errors are equal. -/
theorem Matches.eq_of_not_error (h : v.Matches E w) (hv : v.isError = false) : v = w := by
  cases v <;> cases w <;> first | exact h | cases hv

theorem Matches.trans (h : u.Matches E v) (h' : v.Matches E w) : u.Matches E w := by
  cases hu : u.isError with
  | false =>
    rw [h.eq_of_not_error hu]
    exact h'
  | true =>
    have hv : v.isError = true := h.isError_eq ▸ hu
    have hw : w.isError = true := h'.isError_eq ▸ hv
    cases u <;> cases hu
    cases v <;> cases hv
    cases w <;> cases hw
    exact E.iseqv.trans h h'

theorem matches_sameKind : v.Matches ErrorValue.sameKind w ↔ v.Agrees w := by
  cases v <;> cases w <;> exact Iff.rfl

theorem matches_identical : v.Matches ErrorValue.identical w ↔ v = w := by
  cases v <;> cases w <;> first | exact Iff.rfl | exact ⟨congrArg Value.error, Value.error.inj⟩

end Matches

section Agrees

variable {u v w : Value}

theorem Agrees.refl (v : Value) : v.Agrees v := matches_sameKind.mp (Matches.refl v)

theorem Agrees.of_eq (h : v = w) : v.Agrees w := h ▸ Agrees.refl v

theorem Agrees.symm (h : v.Agrees w) : w.Agrees v := matches_sameKind.mp (matches_sameKind.mpr h).symm

theorem Agrees.trans (h : u.Agrees v) (h' : v.Agrees w) : u.Agrees w :=
  matches_sameKind.mp ((matches_sameKind.mpr h).trans (matches_sameKind.mpr h'))

theorem Agrees.isError_eq (h : v.Agrees w) : v.isError = w.isError := (matches_sameKind.mpr h).isError_eq

theorem Agrees.kindName_eq (h : v.Agrees w) : v.kindName = w.kindName := by
  cases v <;> cases w <;> first | rfl | cases h

end Agrees

end Value

section Results

variable {E : ErrorValue.Likeness} {α β : Type} {r s : Except ErrorValue α}

theorem ResultsMatch.refl (r : Except ErrorValue α) : ResultsMatch E r r := by
  cases r with
  | error e => exact E.iseqv.refl e
  | ok a => rfl

/-- Two results that match are errors that count as the same, or one and the same success. -/
theorem ResultsMatch.cases (h : ResultsMatch E r s) :
    (∃ e f, r = .error e ∧ s = .error f ∧ E.r e f) ∨ ∃ a, r = .ok a ∧ s = .ok a := by
  cases r with
  | error e =>
    cases s with
    | error f => exact Or.inl ⟨e, f, rfl, rfl, h⟩
    | ok b => cases h
  | ok a =>
    cases s with
    | error f => cases h
    | ok b => exact Or.inr ⟨a, rfl, congrArg Except.ok (Eq.symm h)⟩

theorem ResultsMatch.map (h : ResultsMatch E r s) (f : α → β) : ResultsMatch E (r.map f) (s.map f) := by
  rcases h.cases with ⟨e, e', hr, hs, hk⟩ | ⟨a, hr, hs⟩ <;> rw [hr, hs]
  · exact hk
  · rfl

end Results

/-! ### Contexts that match -/

namespace EvaluationContext

/-- Two contexts hide the same cells and show matching values in them, and reading matching errors there
gives matching errors. -/
structure MatchAt (E : ErrorValue.Likeness) (ctx ctx' : EvaluationContext) (p : Position) :
    Prop where
  obscured_eq : ctx.isObscured p = ctx'.isObscured p
  value : (ctx.value p).Matches E (ctx'.value p)
  propagated : ∀ e f, E.r e f → E.r (ctx.propagated e p) (ctx'.propagated f p)

/-- Each reference in a formula on a sheet means the same area in both contexts, and they match on the
cells of these areas. -/
structure MatchOn (E : ErrorValue.Likeness) (ctx ctx' : EvaluationContext) (sheet : SheetId)
    (references : List (String × Reference)) : Prop where
  locale_eq : ctx.locale = ctx'.locale
  function_eq : ctx.function? = ctx'.function?
  resolve : ∀ entry ∈ references, ∃ a, ctx.resolve entry.2 sheet = .ok a ∧
    ctx'.resolve entry.2 sheet = .ok a ∧ ∀ p, a.covers p = true → ctx.MatchAt E ctx' p

variable {ctx ctx' : EvaluationContext} {sheet : SheetId}

theorem kind_propagated (ctx : EvaluationContext) (e : ErrorValue) (p : Position) :
    (ctx.propagated e p).kind = .referencedCell :=
  ErrorValue.kind_propagated e _ p.col p.row

/-- Whatever errors are read, and wherever, what one gets are errors of the same kind. -/
theorem sameKind_propagated (ctx ctx' : EvaluationContext) (e f : ErrorValue) (p q : Position) :
    ErrorValue.sameKind.r (ctx.propagated e p) (ctx'.propagated f q) :=
  (kind_propagated ctx e p).trans (kind_propagated ctx' f q).symm

/-- Reading a row is reading its cells one after the other. -/
theorem readRow_cons (ctx : EvaluationContext) (sheet : SheetId) (row col : Nat) (cols : List Nat) :
    ctx.readRow sheet row (col :: cols) =
      if ctx.isObscured ⟨sheet, row, col⟩ then ctx.readRow sheet row cols
      else match ctx.readPoint ⟨sheet, row, col⟩ with
        | .error e => .error e
        | .ok v => match ctx.readRow sheet row cols with
          | .error e => .error e
          | .ok vs => .ok (v :: vs) := by
  rw [readRow]
  unfold readPoint
  split
  · rfl
  · cases ctx.value ⟨sheet, row, col⟩ <;> cases ctx.readRow sheet row cols <;> rfl

theorem mem_lines {first last n : Nat} : n ∈ lines first last ↔ first ≤ n ∧ n ≤ last := by
  unfold lines
  rw [List.mem_range'_1]
  omega

theorem contains_iff {r : Rect} {col row : Nat} :
    r.contains col row = true ↔ r.left ≤ col ∧ col ≤ r.right ∧ r.top ≤ row ∧ row ≤ r.bottom := by
  unfold Rect.contains
  simp only [Bool.and_eq_true, decide_eq_true_eq, and_assoc]

theorem area_of_resolve {written : String} {r : Reference} {a : Area}
    (h : ctx.resolve r sheet = .ok a) : ctx.area written r sheet = .ok a := by
  unfold area
  rw [h]

theorem covers_corner (id : SheetId) (rect : Rect) :
    (Area.range id rect).covers ⟨id, rect.top, rect.left⟩ = true := by
  show (id == id && rect.contains rect.left rect.top) = true
  rw [contains_iff.mpr ⟨Nat.le_refl _, rect.left_le_right, Nat.le_refl _, rect.top_le_bottom⟩]
  simp

/-- The argument of a call that a tree comes to: the rows of a range, or its value. -/
def argument (ctx : EvaluationContext) (sheet : SheetId) (x : Expr) : Except ErrorValue Argument :=
  match ctx.rangeArgument? sheet x with
  | some rows => rows
  | none => (evaluateExpr ctx sheet x).map .value

theorem evaluateArguments_cons (ctx : EvaluationContext) (sheet : SheetId) (x : Expr)
    (xs : List Expr) :
    evaluateArguments ctx sheet (x :: xs) =
      match ctx.argument sheet x with
      | .error e => .error e
      | .ok a =>
        match evaluateArguments ctx sheet xs with
        | .error e => .error e
        | .ok args => .ok (a :: args) := by
  rw [evaluateArguments]
  rfl

theorem callee_eq (h : ctx.function? = ctx'.function?) (name : String) (count : Nat) :
    ctx.callee name count = ctx'.callee name count := by
  unfold callee
  rw [h]

section Matches

variable {E : ErrorValue.Likeness}

theorem MatchOn.mono {references references' : List (String × Reference)}
    (h : ctx.MatchOn E ctx' sheet references) (hsub : ∀ entry ∈ references', entry ∈ references) :
    ctx.MatchOn E ctx' sheet references' :=
  ⟨h.locale_eq, h.function_eq, fun entry hentry => h.resolve entry (hsub entry hentry)⟩


theorem readPoint_matches {p : Position} (h : ctx.MatchAt E ctx' p) :
    ResultsMatch E (ctx.readPoint p) (ctx'.readPoint p) := by
  obtain ⟨hobscured, hvalue, hpropagated⟩ := h
  unfold readPoint
  rw [← hobscured]
  split
  · exact ResultsMatch.refl _
  · cases hv : (ctx.value p).isError with
    | false =>
      rw [← hvalue.eq_of_not_error hv]
      cases hp : ctx.value p <;> first | rfl | (rw [hp] at hv; cases hv)
    | true =>
      have hv' : (ctx'.value p).isError = true := hvalue.isError_eq ▸ hv
      obtain ⟨e, hp⟩ := Value.isError_eq_true hv
      obtain ⟨e', hp'⟩ := Value.isError_eq_true hv'
      rw [hp, hp'] at hvalue ⊢
      exact hpropagated e e' hvalue

theorem readRow_matches {row : Nat} {cols : List Nat}
    (h : ∀ col ∈ cols, ctx.MatchAt E ctx' ⟨sheet, row, col⟩) :
    ResultsMatch E (ctx.readRow sheet row cols) (ctx'.readRow sheet row cols) := by
  induction cols with
  | nil => exact ResultsMatch.refl _
  | cons col cols ih =>
    have hcol := h col List.mem_cons_self
    have hrest := ih fun col' hcol' => h col' (List.mem_cons_of_mem _ hcol')
    rw [readRow_cons, readRow_cons, ← hcol.1]
    split
    · exact hrest
    · rcases (readPoint_matches hcol).cases with ⟨e, e', hr, hs, hk⟩ | ⟨v, hr, hs⟩ <;> rw [hr, hs]
      · exact hk
      rcases hrest.cases with ⟨e, e', hr, hs, hk⟩ | ⟨vs, hr, hs⟩ <;> rw [hr, hs]
      · exact hk
      · exact ResultsMatch.refl _

theorem readRows_matches {cols rows : List Nat}
    (h : ∀ row ∈ rows, ∀ col ∈ cols, ctx.MatchAt E ctx' ⟨sheet, row, col⟩) :
    ResultsMatch E (ctx.readRows sheet cols rows) (ctx'.readRows sheet cols rows) := by
  induction rows with
  | nil => exact ResultsMatch.refl _
  | cons row rows ih =>
    have hrow := readRow_matches (h row List.mem_cons_self)
    have hrest := ih fun row' hrow' => h row' (List.mem_cons_of_mem _ hrow')
    rw [readRows, readRows]
    rcases hrow.cases with ⟨e, e', hr, hs, hk⟩ | ⟨vs, hr, hs⟩ <;> rw [hr, hs]
    · exact hk
    rcases hrest.cases with ⟨e, e', hr, hs, hk⟩ | ⟨vs, hr, hs⟩ <;> rw [hr, hs]
    · exact hk
    · exact ResultsMatch.refl _

theorem readRange_matches {rect : Rect}
    (h : ∀ p, (Area.range sheet rect).covers p = true → ctx.MatchAt E ctx' p) :
    ResultsMatch E (ctx.readRange sheet rect) (ctx'.readRange sheet rect) := by
  apply readRows_matches
  intro row hrow col hcol
  rw [mem_lines] at hrow hcol
  apply h
  show (sheet == sheet && rect.contains col row) = true
  rw [contains_iff.mpr ⟨hcol.1, hcol.2, hrow.1, hrow.2⟩]
  simp

theorem readReference_matches {written : String} {r : Reference}
    (h : ctx.MatchOn E ctx' sheet [(written, r)]) :
    ResultsMatch E (ctx.readReference written r sheet) (ctx'.readReference written r sheet) := by
  obtain ⟨a, ha, ha', hcells⟩ := h.resolve (written, r) (List.mem_singleton.mpr rfl)
  unfold readReference
  rw [area_of_resolve ha, area_of_resolve ha']
  cases a with
  | point p => exact readPoint_matches (hcells p (by simp [Area.covers]))
  | range id rect =>
    dsimp only
    split
    · exact readPoint_matches (hcells _ (covers_corner id rect))
    · exact ResultsMatch.refl _

/-- An argument is a range in both contexts or in neither, and then with the same rows. -/
theorem rangeArgument?_matches {x : Expr} (h : ctx.MatchOn E ctx' sheet x.references) :
    (ctx.rangeArgument? sheet x = none ∧ ctx'.rangeArgument? sheet x = none) ∨
      ∃ rows rows', ctx.rangeArgument? sheet x = some rows ∧ ctx'.rangeArgument? sheet x = some rows' ∧
        ResultsMatch E rows rows' := by
  cases x with
  | reference span written r =>
    obtain ⟨a, ha, ha', hcells⟩ := h.resolve (written, r) (by simp [Expr.references])
    unfold rangeArgument?
    dsimp only
    rw [area_of_resolve ha, area_of_resolve ha']
    cases a with
    | point p => exact Or.inl ⟨rfl, rfl⟩
    | range id rect => exact Or.inr ⟨_, _, rfl, rfl, (readRange_matches hcells).map _⟩
  | literal span v => exact Or.inl ⟨rfl, rfl⟩
  | unary span op x => exact Or.inl ⟨rfl, rfl⟩
  | binary span op l r => exact Or.inl ⟨rfl, rfl⟩
  | call span name xs => exact Or.inl ⟨rfl, rfl⟩

theorem argument_matches {x : Expr} (h : ctx.MatchOn E ctx' sheet x.references)
    (hx : ResultsMatch E (evaluateExpr ctx sheet x) (evaluateExpr ctx' sheet x)) :
    ResultsMatch E (ctx.argument sheet x) (ctx'.argument sheet x) := by
  unfold argument
  rcases rangeArgument?_matches h with ⟨hn, hn'⟩ | ⟨rows, rows', hr, hr', hsame⟩
  · rw [hn, hn']
    exact hx.map _
  · rw [hr, hr']
    exact hsame

end Matches

end EvaluationContext

/-! ### Evaluation in contexts that match -/

variable {ctx ctx' : EvaluationContext} {sheet : SheetId}

section Matches

variable {E : ErrorValue.Likeness}

mutual

/-- **Evaluation depends on the cells that references mean.** The induction follows the tree; contexts
that match on a tree match on its parts. -/
theorem evaluateExpr_matches :
    (x : Expr) → ctx.MatchOn E ctx' sheet x.references →
      ResultsMatch E (evaluateExpr ctx sheet x) (evaluateExpr ctx' sheet x)
  | .literal span v, _ => by
    rw [evaluateExpr.eq_def, evaluateExpr.eq_def]
    cases v <;> exact ResultsMatch.refl _
  | .reference span written r, h => by
    rw [evaluateExpr, evaluateExpr]
    exact EvaluationContext.readReference_matches h
  | .unary span op x, h => by
    have hx := evaluateExpr_matches x h
    rw [evaluateExpr, evaluateExpr, h.locale_eq]
    rcases hx.cases with ⟨e, e', hr, hs, hk⟩ | ⟨v, hr, hs⟩ <;> rw [hr, hs]
    · exact hk
    · exact ResultsMatch.refl _
  | .binary span op l r, h => by
    have hl := evaluateExpr_matches l (h.mono fun entry he => List.mem_append_left _ he)
    have hr := evaluateExpr_matches r (h.mono fun entry he => List.mem_append_right _ he)
    rw [evaluateExpr, evaluateExpr, h.locale_eq]
    rcases hl.cases with ⟨e, e', hv, hv', hk⟩ | ⟨v, hv, hv'⟩ <;> rw [hv, hv']
    · exact hk
    rcases hr.cases with ⟨e, e', hw, hw', hk⟩ | ⟨w, hw, hw'⟩ <;> rw [hw, hw']
    · exact hk
    · exact ResultsMatch.refl _
  | .call span name xs, h => by
    have hxs := evaluateArguments_matches xs h
    rw [evaluateExpr, evaluateExpr, h.locale_eq, EvaluationContext.callee_eq h.function_eq]
    cases ctx'.callee name xs.length with
    | error e => exact ResultsMatch.refl _
    | ok f =>
      rcases hxs.cases with ⟨e, e', hr, hs, hk⟩ | ⟨args, hr, hs⟩ <;> rw [hr, hs]
      · exact hk
      · exact ResultsMatch.refl _

/-- The arguments of a call evaluate to the same in contexts that match on all of them. -/
theorem evaluateArguments_matches :
    (xs : List Expr) → ctx.MatchOn E ctx' sheet (Expr.referencesAll xs) →
      ResultsMatch E (evaluateArguments ctx sheet xs) (evaluateArguments ctx' sheet xs)
  | [], _ => by
    rw [evaluateArguments, evaluateArguments]
    exact ResultsMatch.refl _
  | x :: xs, h => by
    have hx : ctx.MatchOn E ctx' sheet x.references := h.mono fun entry he => List.mem_append_left _ he
    have hfirst := evaluateExpr_matches x hx
    have hrest := evaluateArguments_matches xs (h.mono fun entry he => List.mem_append_right _ he)
    rw [EvaluationContext.evaluateArguments_cons, EvaluationContext.evaluateArguments_cons]
    rcases (EvaluationContext.argument_matches hx hfirst).cases with ⟨e, e', hr, hs, hk⟩ | ⟨a, hr, hs⟩ <;> rw [hr, hs]
    · exact hk
    rcases hrest.cases with ⟨e, e', hr, hs, hk⟩ | ⟨args, hr, hs⟩ <;> rw [hr, hs]
    · exact hk
    · exact ResultsMatch.refl _

end

/-- What is stored for a formula matches in contexts that match on the formula. -/
theorem evaluate_matches {x : Expr} (h : ctx.MatchOn E ctx' sheet x.references) :
    (evaluate ctx sheet x).Matches E (evaluate ctx' sheet x) := by
  unfold evaluate
  rcases (evaluateExpr_matches x h).cases with ⟨e, e', hr, hs, hk⟩ | ⟨v, hr, hs⟩ <;> rw [hr, hs]
  · exact hk
  · exact Value.Matches.refl v

end Matches

/-! ### Errors are not swallowed -/

namespace EvaluationContext

/-- No cell that references in a formula on a sheet mean shows an error, hidden cells aside. -/
def IsClean (ctx : EvaluationContext) (sheet : SheetId) (references : List (String × Reference)) : Prop :=
  ∀ entry ∈ references, ∀ a, ctx.resolve entry.2 sheet = .ok a → ∀ p, a.covers p = true →
    ctx.isObscured p = false → (ctx.value p).isError = false

theorem not_error_of_readPoint {p : Position} {v : Value} (h : ctx.readPoint p = .ok v)
    (hp : ctx.isObscured p = false) : (ctx.value p).isError = false := by
  unfold readPoint at h
  rw [hp] at h
  cases hv : ctx.value p <;> first | rfl | (rw [hv] at h; cases h)

theorem not_error_of_readRow {row : Nat} {cols : List Nat} {vs : List Value}
    (h : ctx.readRow sheet row cols = .ok vs) :
    ∀ col ∈ cols, ctx.isObscured ⟨sheet, row, col⟩ = false →
      (ctx.value ⟨sheet, row, col⟩).isError = false := by
  induction cols generalizing vs with
  | nil => exact fun col hcol => absurd hcol List.not_mem_nil
  | cons first cols ih =>
    intro col hcol hseen
    rw [readRow_cons] at h
    split at h
    · next hhidden =>
      rcases List.mem_cons.mp hcol with rfl | hcol
      · rw [hseen] at hhidden
        cases hhidden
      · exact ih h col hcol hseen
    · split at h
      · cases h
      next v hv =>
      split at h
      · cases h
      next vs' hvs =>
      rcases List.mem_cons.mp hcol with rfl | hcol
      · exact not_error_of_readPoint hv hseen
      · exact ih hvs col hcol hseen

theorem not_error_of_readRows {cols rows : List Nat} {vss : List (List Value)}
    (h : ctx.readRows sheet cols rows = .ok vss) :
    ∀ row ∈ rows, ∀ col ∈ cols, ctx.isObscured ⟨sheet, row, col⟩ = false →
      (ctx.value ⟨sheet, row, col⟩).isError = false := by
  induction rows generalizing vss with
  | nil => exact fun row hrow => absurd hrow List.not_mem_nil
  | cons first rows ih =>
    intro row hrow
    rw [readRows] at h
    split at h
    · cases h
    next vs hvs =>
    split at h
    · cases h
    next rest hrest =>
    rcases List.mem_cons.mp hrow with rfl | hrow
    · exact not_error_of_readRow hvs
    · exact ih hrest row hrow

theorem not_error_of_readRange {rect : Rect} {vss : List (List Value)}
    (h : ctx.readRange sheet rect = .ok vss) (p : Position)
    (hp : (Area.range sheet rect).covers p = true) (hseen : ctx.isObscured p = false) :
    (ctx.value p).isError = false := by
  obtain ⟨rfl, hin⟩ : sheet = p.sheet ∧ rect.contains p.col p.row = true := by
    simpa [Area.covers] using hp
  rw [contains_iff] at hin
  exact not_error_of_readRows h p.row (mem_lines.mpr ⟨hin.2.2.1, hin.2.2.2⟩) p.col
    (mem_lines.mpr ⟨hin.1, hin.2.1⟩) hseen

/-- What a reference means in a formula on a sheet can be read, as one value or as the rows of a range. -/
def CanRead (ctx : EvaluationContext) (sheet : SheetId) (entry : String × Reference) : Prop :=
  (∃ v, ctx.readReference entry.1 entry.2 sheet = .ok v) ∨
    ∃ id rect vss, ctx.resolve entry.2 sheet = .ok (.range id rect) ∧ ctx.readRange id rect = .ok vss

/-- What can be read is there. -/
theorem CanRead.exists_area {entry : String × Reference} (h : ctx.CanRead sheet entry) :
    ∃ a, ctx.resolve entry.2 sheet = .ok a := by
  rcases h with ⟨v, hv⟩ | ⟨id, rect, vss, hr, -⟩
  · unfold readReference area at hv
    split at hv
    · cases hv
    · next harea =>
      split at harea
      · exact ⟨_, ‹_›⟩
      · cases harea
    · next harea =>
      split at harea
      · exact ⟨_, ‹_›⟩
      · cases harea
  · exact ⟨_, hr⟩

/-- What can be read shows no error, hidden cells aside. -/
theorem CanRead.isClean {entry : String × Reference} (h : ctx.CanRead sheet entry) {a : Area}
    (ha : ctx.resolve entry.2 sheet = .ok a) {p : Position} (hp : a.covers p = true)
    (hseen : ctx.isObscured p = false) : (ctx.value p).isError = false := by
  rcases h with ⟨v, hv⟩ | ⟨id, rect, vss, hr, hrows⟩
  · unfold readReference at hv
    rw [area_of_resolve ha] at hv
    cases a with
    | point q =>
      obtain rfl : q = p := by simpa [Area.covers] using hp
      exact not_error_of_readPoint hv hseen
    | range id rect =>
      dsimp only at hv
      split at hv
      · next hsingle =>
        obtain ⟨rfl, hin⟩ : id = p.sheet ∧ rect.contains p.col p.row = true := by
          simpa [Area.covers] using hp
        rw [contains_iff] at hin
        unfold Rect.isSingle at hsingle
        simp only [Bool.and_eq_true, beq_iff_eq] at hsingle
        have hcorner : (⟨p.sheet, rect.top, rect.left⟩ : Position) = p := by
          obtain ⟨sheet, row, col⟩ := p
          simp only [Position.mk.injEq, true_and]
          dsimp only at hin
          omega
        rw [hcorner] at hv
        exact not_error_of_readPoint hv hseen
      · cases hv
  · rw [hr] at ha
    cases ha
    exact not_error_of_readRange hrows p hp hseen

theorem canRead_of_rangeArgument {x : Expr} {rows : Except ErrorValue Argument} {arg : Argument}
    (h : ctx.rangeArgument? sheet x = some rows) (hrows : rows = .ok arg) :
    ∀ entry ∈ x.references, ctx.CanRead sheet entry := by
  unfold rangeArgument? at h
  split at h
  · next span written r =>
    intro entry hentry
    rw [Expr.references] at hentry
    rw [List.mem_singleton.mp hentry]
    split at h
    · cases h
      cases hrows
    · next id rect harea =>
      cases h
      unfold area at harea
      split at harea
      · next hr =>
        cases harea
        cases hread : ctx.readRange id rect with
        | error e =>
          rw [hread] at hrows
          cases hrows
        | ok vss => exact Or.inr ⟨id, rect, vss, hr, hread⟩
      · cases harea
    · cases h
  · cases h

end EvaluationContext

mutual

/-- **A formula that evaluates without error has read all its references.** The induction follows the tree:
no part of it is left out. -/
theorem canRead_of_evaluateExpr :
    (x : Expr) → ∀ v, evaluateExpr ctx sheet x = .ok v → ∀ entry ∈ x.references, ctx.CanRead sheet entry
  | .literal span v, _, _ => fun entry hentry => absurd hentry List.not_mem_nil
  | .reference span written r, v, h => by
    rw [evaluateExpr] at h
    intro entry hentry
    rw [List.mem_singleton.mp hentry]
    exact Or.inl ⟨v, h⟩
  | .unary span op x, v, h => by
    rw [evaluateExpr] at h
    split at h
    · cases h
    next w hw => exact canRead_of_evaluateExpr x w hw
  | .binary span op l r, v, h => by
    rw [evaluateExpr] at h
    split at h
    · cases h
    next w hw =>
    split at h
    · cases h
    next w' hw' =>
    exact List.forall_mem_append.mpr ⟨canRead_of_evaluateExpr l w hw, canRead_of_evaluateExpr r w' hw'⟩
  | .call span name xs, v, h => by
    rw [evaluateExpr] at h
    split at h
    · cases h
    split at h
    · cases h
    next args hargs => exact canRead_of_evaluateArguments xs args hargs

/-- The same of the arguments of a call. -/
theorem canRead_of_evaluateArguments :
    (xs : List Expr) → ∀ args, evaluateArguments ctx sheet xs = .ok args →
      ∀ entry ∈ Expr.referencesAll xs, ctx.CanRead sheet entry
  | [], _, _ => fun entry hentry => absurd hentry List.not_mem_nil
  | x :: xs, args, h => by
    have hx := canRead_of_evaluateExpr x
    rw [EvaluationContext.evaluateArguments_cons] at h
    split at h
    · cases h
    next arg harg =>
    split at h
    · cases h
    next args' hargs =>
    refine List.forall_mem_append.mpr ⟨?_, canRead_of_evaluateArguments xs args' hargs⟩
    unfold EvaluationContext.argument at harg
    split at harg
    · next rows hrows => exact EvaluationContext.canRead_of_rangeArgument hrows harg
    · cases hr : evaluateExpr ctx sheet x with
      | error e =>
        rw [hr] at harg
        cases harg
      | ok v => exact hx v hr

end

/-- **An error is never swallowed.** A formula that evaluates without error has read no cell with an
error, except for cells that a merged region hides. -/
theorem evaluateExpr_reads (x : Expr) (v : Value) (h : evaluateExpr ctx sheet x = .ok v) :
    ctx.IsClean sheet x.references :=
  fun entry hentry _ ha _ hp hseen => (canRead_of_evaluateExpr x v h entry hentry).isClean ha hp hseen

/-- A formula with a reference that means nothing has an error for its value. -/
theorem isError_evaluate_of_unresolved {x : Expr} {entry : String × Reference} (hentry : entry ∈ x.references)
    (h : ∀ a, ctx.resolve entry.2 sheet ≠ .ok a) : (evaluate ctx sheet x).isError = true := by
  unfold evaluate
  cases hr : evaluateExpr ctx sheet x with
  | error e => rfl
  | ok v =>
    obtain ⟨a, ha⟩ := (canRead_of_evaluateExpr x v hr entry hentry).exists_area
    exact absurd ha (h a)

/-- A formula that reads an error in a cell that is not hidden has an error for its value. -/
theorem isError_evaluate {x : Expr} {entry : String × Reference} (hentry : entry ∈ x.references)
    {a : Area} (ha : ctx.resolve entry.2 sheet = .ok a) {p : Position} (hp : a.covers p = true)
    (hseen : ctx.isObscured p = false) (herror : (ctx.value p).isError = true) :
    (evaluate ctx sheet x).isError = true := by
  unfold evaluate
  cases hr : evaluateExpr ctx sheet x with
  | error e => rfl
  | ok v =>
    have hclean := evaluateExpr_reads x v hr entry hentry a ha p hp hseen
    rw [herror] at hclean
    cases hclean

end Spreadsheet
