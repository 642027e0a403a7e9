import Spreadsheet.Proofs.Evaluating
import Spreadsheet.Proofs.Mentions

/-!
# Arising: where the error of a formula comes from

An error that a formula finds by itself is neither of the kind that tells of another cell nor has it an origin
(`ErrorValue.IsOwn`). Whatever else a formula shows it has read, and then it tells of the cell that it read.

* `Library.isPlain_standard` — the functions of the library find errors of their own only, as long as no argument
  is an error;
* `traces_of_evaluate` — so the error of a formula is one of its own, or that of a cell which its references
  cover, by induction on the tree.

Both are about results with an error or a value, put together by the rules for `Gives`.
-/

namespace Spreadsheet

open Grid

/-- An error that arose in the cell that shows it: it tells of no other cell. -/
structure ErrorValue.IsOwn (e : ErrorValue) : Prop where
  kind_ne : e.kind ≠ .referencedCell
  origin_eq : e.origin = none

/-- If the value is an error, it is one of its own. -/
def Value.IsOwn (v : Value) : Prop := ∀ e, v = .error e → e.IsOwn

/-- Evaluation finds errors of its own. -/
theorem Cause.isOwn_toError (c : Cause) : c.toError.IsOwn := by
  refine ⟨fun h => ?_, rfl⟩
  have h : c.kind = .referencedCell := h
  cases c <;> cases h

/-- What is true of the error, or of the value, that a result is. -/
def Gives {ε α : Type} (P : ε → Prop) (Q : α → Prop) : Except ε α → Prop
  | .ok a => Q a
  | .error e => P e

namespace Gives

variable {ε α β : Type} {P P' : ε → Prop} {Q Q' : α → Prop} {R : β → Prop} {r : Except ε α}

theorem bind {f : α → Except ε β} (h : Gives P Q r) (hf : ∀ a, Q a → Gives P R (f a)) :
    Gives P R (r >>= f) := by
  cases r with
  | ok a => exact hf a h
  | error e => exact h

theorem map {f : α → β} (h : Gives P Q r) (hf : ∀ a, Q a → R (f a)) : Gives P R (r.map f) := by
  cases r with
  | ok a => exact hf a h
  | error e => exact h

theorem mono (h : Gives P Q r) (hP : ∀ e, P e → P' e) (hQ : ∀ a, Q a → Q' a) : Gives P' Q' r := by
  cases r with
  | ok a => exact hQ a h
  | error e => exact hP e h

theorem of_error {e : ε} (h : Gives P Q r) (hr : r = .error e) : P e := by
  rw [hr] at h
  exact h

theorem of_ok {a : α} (h : Gives P Q r) (hr : r = .ok a) : Q a := by
  rw [hr] at h
  exact h

end Gives

/-- A result that is an error of its own, or a value of which something is true. -/
abbrev GivesOwn {α : Type} (Q : α → Prop) : Except ErrorValue α → Prop := Gives ErrorValue.IsOwn Q

/-- A result whose error, if it is one, is one of its own. -/
abbrev FailsOnOwn {α : Type} : Except ErrorValue α → Prop := GivesOwn fun _ => True

namespace Gives

theorem ok {α : Type} (a : α) : FailsOnOwn (Except.ok a : Except ErrorValue α) := trivial

theorem cause {α : Type} (c : Cause) {Q : α → Prop} : GivesOwn Q (Except.error c.toError) := c.isOwn_toError

end Gives

/-! ### Reading values as numbers, texts and truth values -/

section Coercion

variable {locale : Locale} {v : Value}

theorem failsOnOwn_finite (x : Float) : FailsOnOwn (finite x) := by
  unfold finite
  split
  · exact .ok x
  · exact .cause _

theorem Value.failsOnOwn_toNumber (h : v.isError = false) : FailsOnOwn (v.toNumber locale) := by
  unfold Value.toNumber
  split
  · exact .ok _
  · exact .ok _
  · exact .ok _
  · exact .ok _
  · exact .ok _
  · split
    · exact .ok _
    · exact .cause _
  · cases h

theorem Value.failsOnOwn_toText (h : v.isError = false) : FailsOnOwn (v.toText locale) := by
  cases v with
  | error e => cases h
  | _ => exact .ok _

end Coercion

/-! ### Functions -/

/-- An argument without errors. -/
def Argument.IsPlain (a : Argument) : Prop := ∀ v ∈ a.values, v.isError = false

/-- A function finds errors of its own only, if it is given none. -/
def Function.IsPlain (f : Function) : Prop :=
  ∀ locale args, (∀ a ∈ args, a.IsPlain) → GivesOwn Value.IsOwn (f.apply locale args)

/-- Every function of a library finds errors of its own only. -/
def Library.IsPlain (l : Library) : Prop := ∀ f ∈ l.functions, f.IsPlain

namespace Argument

variable {locale : Locale} {a : Argument}

theorem isPlain_value {v : Value} : IsPlain (.value v) ↔ v.isError = false := by
  unfold IsPlain values
  simp

end Argument

namespace Function

variable {locale : Locale} {args : List Argument}

theorem quotient_failsOnOwn (x y : Float) : FailsOnOwn (quotient x y) := by
  unfold quotient
  split
  · exact .cause _
  · exact .ok _

theorem raise_failsOnOwn (x y : Float) : FailsOnOwn (raise x y) := by
  unfold raise
  split
  · exact .cause _
  · dsimp only
    split
    · exact .cause _
    · exact .ok _

end Function

section Operators

variable {locale : Locale} {v w : Value}

theorem UnaryOperator.apply_givesOwn (op : UnaryOperator) (hv : v.isError = false) :
    GivesOwn (fun u => u.isError = false) (op.apply locale v) := by
  refine (Value.failsOnOwn_toNumber hv).bind fun x _ => ?_
  cases op with
  | minus => exact (failsOnOwn_finite _).bind fun _ _ => rfl
  | plus => exact (failsOnOwn_finite _).bind fun _ _ => rfl
  | percent => exact (failsOnOwn_finite _).bind fun _ _ => rfl
  | other symbol => exact .cause _

theorem arithmetic_givesOwn {operation : Float → Float → Except ErrorValue Float}
    (h : ∀ x y, FailsOnOwn (operation x y)) (hv : v.isError = false) (hw : w.isError = false) :
    GivesOwn (fun u => u.isError = false) (arithmetic locale operation v w) :=
  (Value.failsOnOwn_toNumber hv).bind fun x _ => (Value.failsOnOwn_toNumber hw).bind fun y _ =>
    (h x y).bind fun z _ => (failsOnOwn_finite z).bind fun _ _ => rfl

theorem BinaryOperator.apply_givesOwn (op : BinaryOperator) (hv : v.isError = false) (hw : w.isError = false) :
    GivesOwn (fun u => u.isError = false) (op.apply locale v w) := by
  cases op with
  | plus => exact arithmetic_givesOwn (fun _ _ => .ok _) hv hw
  | minus => exact arithmetic_givesOwn (fun _ _ => .ok _) hv hw
  | times => exact arithmetic_givesOwn (fun _ _ => .ok _) hv hw
  | divide => exact arithmetic_givesOwn Function.quotient_failsOnOwn hv hw
  | power => exact arithmetic_givesOwn Function.raise_failsOnOwn hv hw
  | join =>
    exact (Value.failsOnOwn_toText hv).bind fun _ _ => (Value.failsOnOwn_toText hw).bind fun _ _ => rfl
  | other symbol => exact .cause _
  | _ => rfl

theorem returned_givesOwn (h : v.IsOwn) : GivesOwn (fun u => u.isError = false) (returned v) := by
  cases v with
  | error e => exact h e rfl
  | number x => exact (failsOnOwn_finite x).map fun _ _ => rfl
  | _ => rfl

end Operators

/-! ### Formulas -/

/-- A tree in which no literal is the error of another cell. -/
def Expr.IsPlain (x : Expr) : Prop := ∀ span v, Expr.literal span v ∈ x.leaves → v.IsOwn

namespace EvaluationContext

/-- The error that one gets for reading a cell with an error, at one of some positions. -/
def ReadsError (ctx : EvaluationContext) (P : Position → Prop) (e : ErrorValue) : Prop :=
  ∃ p, P p ∧ ∃ root, ctx.value p = .error root ∧ e = ctx.propagated root p

/-- A position that one of the references in a formula on a sheet refers to. -/
def Mentions (ctx : EvaluationContext) (sheet : SheetId) (references : List (String × Reference)) (p : Position) :
    Prop :=
  ∃ entry ∈ references, ∃ a, ctx.resolve entry.2 sheet = .ok a ∧ a.covers p = true

/-- An error of the formula itself, or one that it has read. -/
def Traces (ctx : EvaluationContext) (sheet : SheetId) (references : List (String × Reference))
    (e : ErrorValue) : Prop :=
  e.IsOwn ∨ ctx.ReadsError (ctx.Mentions sheet references) e

variable {ctx : EvaluationContext} {sheet : SheetId}

theorem ReadsError.mono {P Q : Position → Prop} {e : ErrorValue} (h : ctx.ReadsError P e) (hsub : ∀ p, P p → Q p) :
    ctx.ReadsError Q e := by
  obtain ⟨p, hp, root, hroot⟩ := h
  exact ⟨p, hsub p hp, root, hroot⟩

theorem Traces.mono {references references' : List (String × Reference)} {e : ErrorValue}
    (h : ctx.Traces sheet references e) (hsub : ∀ entry ∈ references, entry ∈ references') :
    ctx.Traces sheet references' e := by
  refine h.imp_right fun hread => hread.mono ?_
  rintro p ⟨entry, hentry, hcovers⟩
  exact ⟨entry, hsub entry hentry, hcovers⟩

theorem readPoint_gives (ctx : EvaluationContext) (p : Position) :
    Gives (ctx.ReadsError (· = p)) (fun v => v.isError = false) (ctx.readPoint p) := by
  unfold readPoint
  split
  · rfl
  · split
    · next root hroot => exact ⟨p, rfl, root, hroot, rfl⟩
    · next hnone =>
      cases hv : ctx.value p with
      | error root => exact absurd hv (hnone root)
      | _ => rfl

theorem readRow_gives (ctx : EvaluationContext) (sheet : SheetId) (row : Nat) (cols : List Nat) :
    Gives (ctx.ReadsError fun p => ∃ col ∈ cols, p = ⟨sheet, row, col⟩) (fun vs => ∀ v ∈ vs, v.isError = false)
      (ctx.readRow sheet row cols) := by
  induction cols with
  | nil => exact fun v hv => absurd hv List.not_mem_nil
  | cons col cols ih =>
    have hrest : Gives (ctx.ReadsError fun p => ∃ c ∈ col :: cols, p = ⟨sheet, row, c⟩)
        (fun vs => ∀ v ∈ vs, v.isError = false) (ctx.readRow sheet row cols) := by
      refine ih.mono (fun e he => he.mono ?_) fun vs hvs => hvs
      rintro p ⟨c, hc, rfl⟩
      exact ⟨c, List.mem_cons_of_mem col hc, rfl⟩
    have hfirst := readPoint_gives ctx ⟨sheet, row, col⟩
    rw [readRow_cons]
    split
    · exact hrest
    · split
      · next e he => exact (hfirst.of_error he).mono fun p hp => ⟨col, List.mem_cons_self, hp⟩
      · next v hv =>
        split
        · next e he => exact hrest.of_error he
        · next vs hvs => exact List.forall_mem_cons.mpr ⟨hfirst.of_ok hv, hrest.of_ok hvs⟩

theorem readRows_gives (ctx : EvaluationContext) (sheet : SheetId) (cols rows : List Nat) :
    Gives (ctx.ReadsError fun p => ∃ row ∈ rows, ∃ col ∈ cols, p = ⟨sheet, row, col⟩)
      (fun vss => ∀ vs ∈ vss, ∀ v ∈ vs, v.isError = false) (ctx.readRows sheet cols rows) := by
  induction rows with
  | nil => exact fun vs hvs => absurd hvs List.not_mem_nil
  | cons row rows ih =>
    have hrest : Gives (ctx.ReadsError fun p => ∃ r ∈ row :: rows, ∃ col ∈ cols, p = ⟨sheet, r, col⟩)
        (fun vss => ∀ vs ∈ vss, ∀ v ∈ vs, v.isError = false) (ctx.readRows sheet cols rows) := by
      refine ih.mono (fun e he => he.mono ?_) fun vss hvss => hvss
      rintro p ⟨r, hr, hp⟩
      exact ⟨r, List.mem_cons_of_mem row hr, hp⟩
    have hfirst := readRow_gives ctx sheet row cols
    rw [readRows]
    split
    · next e he => exact (hfirst.of_error he).mono fun p hp => ⟨row, List.mem_cons_self, hp⟩
    · next vs hvs =>
      split
      · next e he => exact hrest.of_error he
      · next vss hvss =>
        show ∀ us ∈ (if vs.isEmpty then vss else vs :: vss), ∀ u ∈ us, u.isError = false
        split
        · exact hrest.of_ok hvss
        · exact List.forall_mem_cons.mpr ⟨hfirst.of_ok hvs, hrest.of_ok hvss⟩

theorem readRange_gives (ctx : EvaluationContext) (id : SheetId) (rect : Rect) :
    Gives (ctx.ReadsError fun p => (Area.range id rect).covers p = true)
      (fun vss => ∀ vs ∈ vss, ∀ v ∈ vs, v.isError = false) (ctx.readRange id rect) := by
  refine (readRows_gives ctx id _ _).mono (fun e he => he.mono ?_) fun vss hvss => hvss
  rintro p ⟨row, hrow, col, hcol, rfl⟩
  rw [mem_lines] at hrow hcol
  show (id == id && rect.contains col row) = true
  rw [contains_iff.mpr ⟨hcol.1, hcol.2, hrow.1, hrow.2⟩]
  simp

theorem traces_of_readsError {written : String} {r : Reference} {a : Area} (ha : ctx.resolve r sheet = .ok a)
    {P : Position → Prop} (hP : ∀ p, P p → a.covers p = true) {e : ErrorValue} (h : ctx.ReadsError P e) :
    ctx.Traces sheet [(written, r)] e :=
  Or.inr (h.mono fun p hp => ⟨(written, r), List.mem_cons_self, a, ha, hP p hp⟩)

theorem area_cases (ctx : EvaluationContext) (sheet : SheetId) (written : String) (r : Reference) :
    (∃ problem : ResolutionProblem, ctx.area written r sheet = .error (problem.toError written)) ∨
      ∃ a, ctx.resolve r sheet = .ok a ∧ ctx.area written r sheet = .ok a := by
  unfold area
  cases ctx.resolve r sheet with
  | ok a => exact Or.inr ⟨a, rfl, rfl⟩
  | error problem => exact Or.inl ⟨problem, rfl⟩

theorem readReference_gives (written : String) (r : Reference) :
    Gives (ctx.Traces sheet [(written, r)]) (fun v => v.isError = false) (ctx.readReference written r sheet) := by
  unfold readReference
  rcases area_cases ctx sheet written r with ⟨problem, harea⟩ | ⟨a, ha, harea⟩ <;> rw [harea]
  · exact Or.inl (Cause.isOwn_toError _)
  cases a with
  | point p =>
    refine (readPoint_gives ctx p).mono (fun e he => traces_of_readsError ha ?_ he) fun v hv => hv
    rintro q rfl
    simp [Area.covers]
  | range id rect =>
    dsimp only
    split
    · refine (readPoint_gives ctx _).mono (fun e he => traces_of_readsError ha ?_ he) fun v hv => hv
      rintro q rfl
      exact covers_corner id rect
    · exact Or.inl (Cause.isOwn_toError _)

theorem argument_gives {x : Expr}
    (hx : Gives (ctx.Traces sheet x.references) (fun v => v.isError = false) (evaluateExpr ctx sheet x)) :
    Gives (ctx.Traces sheet x.references) Argument.IsPlain (ctx.argument sheet x) := by
  have hvalue : Gives (ctx.Traces sheet x.references) Argument.IsPlain
      ((evaluateExpr ctx sheet x).map .value) := hx.map fun v hv => Argument.isPlain_value.mpr hv
  cases x with
  | reference span written r =>
    unfold argument rangeArgument?
    dsimp only
    rcases area_cases ctx sheet written r with ⟨problem, harea⟩ | ⟨a, ha, harea⟩ <;> rw [harea]
    · exact Or.inl (Cause.isOwn_toError _)
    cases a with
    | point p => exact hvalue
    | range id rect =>
      refine Gives.map ((readRange_gives ctx id rect).mono
        (fun e he => traces_of_readsError ha (fun p hp => hp) he) fun vss hvss => hvss) fun vss hvss => ?_
      intro v hv
      obtain ⟨vs, hvs, hv⟩ := List.mem_flatten.mp hv
      exact hvss vs hvs v hv
  | literal span v => exact hvalue
  | unary span op y => exact hvalue
  | binary span op l r => exact hvalue
  | call span name xs => exact hvalue

theorem callee_givesOwn (ctx : EvaluationContext) (name : String) (count : Nat) :
    GivesOwn (fun f => ctx.function? name = some f) (ctx.callee name count) := by
  unfold callee
  split
  · exact .cause _
  · next f hf =>
    split
    · exact hf
    · exact .cause _

end EvaluationContext

section Formulas

variable {ctx : EvaluationContext} {sheet : SheetId}

/-- Every function that a formula can call finds errors of its own only. -/
def EvaluationContext.HasPlainFunctions (ctx : EvaluationContext) : Prop :=
  ∀ name f, ctx.function? name = some f → f.IsPlain

mutual

/-- **The error of a formula is one of its own or that of a cell which it reads.** The induction follows the tree:
no operand and no argument is an error, or the evaluation has ended with it. -/
theorem evaluateExpr_gives (hplain : ctx.HasPlainFunctions) : (x : Expr) → x.IsPlain →
    Gives (ctx.Traces sheet x.references) (fun v => v.isError = false) (evaluateExpr ctx sheet x)
  | .literal span v, h => by
    have hv := h span v List.mem_cons_self
    cases v with
    | error e => exact Or.inl (hv e rfl)
    | _ => rfl
  | .reference span written r, _ => EvaluationContext.readReference_gives written r
  | .unary span op x, h => by
    have hx := evaluateExpr_gives hplain x h
    rw [evaluateExpr]
    split
    · next e he => exact hx.of_error he
    · next v hv => exact (op.apply_givesOwn (hx.of_ok hv)).mono (fun _ => Or.inl) fun _ hw => hw
  | .binary span op l r, h => by
    have hl := evaluateExpr_gives hplain l fun span v hv => h span v (List.mem_append_left _ hv)
    have hr := evaluateExpr_gives hplain r fun span v hv => h span v (List.mem_append_right _ hv)
    rw [evaluateExpr]
    split
    · next e he => exact (hl.of_error he).mono fun _ => List.mem_append_left _
    · next v hv =>
      split
      · next e he => exact (hr.of_error he).mono fun _ => List.mem_append_right _
      · next w hw =>
        exact (op.apply_givesOwn (hl.of_ok hv) (hr.of_ok hw)).mono (fun _ => Or.inl) fun _ hu => hu
  | .call span name xs, h => by
    have hcallee := EvaluationContext.callee_givesOwn ctx name xs.length
    have hxs := evaluateArguments_gives hplain xs h
    rw [evaluateExpr]
    split
    · next e he => exact Or.inl (hcallee.of_error he)
    · next f hf =>
      split
      · next e he => exact hxs.of_error he
      · next args hargs =>
        have hvalue := hplain name f (hcallee.of_ok hf) ctx.locale args (hxs.of_ok hargs)
        split
        · next e he => exact Or.inl (hvalue.of_error he)
        · next v hv => exact (returned_givesOwn (hvalue.of_ok hv)).mono (fun _ => Or.inl) fun _ hu => hu

/-- The same of the arguments of a call. -/
theorem evaluateArguments_gives (hplain : ctx.HasPlainFunctions) :
    (xs : List Expr) → (∀ span v, Expr.literal span v ∈ Expr.leavesAll xs → v.IsOwn) →
      Gives (ctx.Traces sheet (Expr.referencesAll xs)) (fun args => ∀ a ∈ args, a.IsPlain)
        (evaluateArguments ctx sheet xs)
  | [], _ => fun _ ha => absurd ha List.not_mem_nil
  | x :: xs, h => by
    have hx := EvaluationContext.argument_gives
      (evaluateExpr_gives hplain x fun span v hv => h span v (List.mem_append_left _ hv))
    have hxs := evaluateArguments_gives hplain xs fun span v hv => h span v (List.mem_append_right _ hv)
    rw [EvaluationContext.evaluateArguments_cons]
    split
    · next e he => exact (hx.of_error he).mono fun _ => List.mem_append_left _
    · next a ha =>
      split
      · next e he => exact (hxs.of_error he).mono fun _ => List.mem_append_right _
      · next args hargs => exact List.forall_mem_cons.mpr ⟨hx.of_ok ha, hxs.of_ok hargs⟩

end

end Formulas

end Spreadsheet
