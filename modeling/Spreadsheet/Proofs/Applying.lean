import Spreadsheet.Proofs.Arising

/-!
# Applying: functions are called with what has been read without error

A function is more than a rule that computes: it may answer differently when it is called again, or depend on
what has been called before. `Behaviour` says what the functions answer to arguments after the calls made so far,
and `runExpr` evaluates a tree while it notes every call. If functions do nothing but compute, that is the
evaluation of the tree (`computes_runExpr`).

However functions behave, what is true of a value that a part of a tree comes to is handed on (`Ensures`), and so:

* a tree that comes to a value has read all its references, and its value is no error (`ensures_runExpr`);
* no function is called with an error, or with a range that has one in it, because the evaluation has ended before.
-/

namespace Spreadsheet

open Grid

/-- A call of a function that has been made: what the function was given, and what it answered. -/
structure Application where
  function : Function
  arguments : List Argument
  answer : Except ErrorValue Value

/-- What functions answer to arguments after some calls have been made. -/
abbrev Behaviour := List Application → Function → List Argument → Except ErrorValue Value

/-- Functions that do nothing but compute. -/
def Behaviour.computing (locale : Locale) : Behaviour := fun _ f args => f.apply locale args

/-- An evaluation in which calls are noted, the last one first. -/
abbrev Run (α : Type) := ExceptT ErrorValue (StateM (List Application)) α

namespace Run

variable {α β : Type}

/-- A step without a call. -/
def ofExcept (r : Except ErrorValue α) : Run α := ExceptT.mk (pure r)

/-- A call of a function. -/
def call (behave : Behaviour) (f : Function) (args : List Argument) : Run Value := ExceptT.mk fun calls =>
  let answer := behave calls f args
  (answer, ⟨f, args, answer⟩ :: calls)

/-- An argument of a call: the rows of a range, or the value of its tree. -/
def argument (rows? : Option (Except ErrorValue Argument)) (value : Run Value) : Run Argument :=
  match rows? with
  | some rows => ofExcept rows
  | none => do
    let v ← value
    pure (.value v)

end Run

mutual

/-- Evaluates a tree in a formula on a sheet, with functions that behave in some way. -/
def runExpr (behave : Behaviour) (ctx : EvaluationContext) (sheet : SheetId) : Expr → Run Value
  | .literal _ (.error e) => throw e
  | .literal _ v => pure v
  | .reference _ written r => Run.ofExcept (ctx.readReference written r sheet)
  | .unary _ op x => do
    let v ← runExpr behave ctx sheet x
    Run.ofExcept (op.apply ctx.locale v)
  | .binary _ op l r => do
    let v ← runExpr behave ctx sheet l
    let w ← runExpr behave ctx sheet r
    Run.ofExcept (op.apply ctx.locale v w)
  | .call _ name xs => do
    let f ← Run.ofExcept (ctx.callee name xs.length)
    let args ← runArguments behave ctx sheet xs
    let v ← Run.call behave f args
    Run.ofExcept (returned v)

/-- Evaluates the arguments of a call, from the left. -/
def runArguments (behave : Behaviour) (ctx : EvaluationContext) (sheet : SheetId) :
    List Expr → Run (List Argument)
  | [] => pure []
  | x :: xs => do
    let a ← Run.argument (ctx.rangeArgument? sheet x) (runExpr behave ctx sheet x)
    let args ← runArguments behave ctx sheet xs
    pure (a :: args)

end

/-- The value that a cell on a sheet stores for a tree, and the calls that are made for it. -/
def evaluateNoting (behave : Behaviour) (ctx : EvaluationContext) (sheet : SheetId) (x : Expr) :
    Value × List Application :=
  match (runExpr behave ctx sheet x).run.run [] with
  | (.ok v, calls) => (v, calls)
  | (.error e, calls) => (.error e, calls)

namespace Run

variable {α β : Type} {m : Run α}

/-- What comes next starts with the calls made so far, or does not come at all. -/
theorem run_bind (m : Run α) (f : α → Run β) (calls : List Application) :
    (m >>= f).run.run calls =
      match m.run.run calls with
      | (.ok a, calls) => (f a).run.run calls
      | (.error e, calls) => (.error e, calls) := by
  show (ExceptT.bindCont f (m.run.run calls).1).run (m.run.run calls).2 = _
  cases m.run.run calls with
  | mk r calls => cases r <;> rfl

/-! ### Runs that compute -/

/-- Whatever has been called before, a run comes to a result. -/
def Computes (m : Run α) (r : Except ErrorValue α) : Prop := ∀ calls, (m.run.run calls).1 = r

namespace Computes

variable {r : Except ErrorValue α} {f : α → Run β} {g : α → Except ErrorValue β}

theorem ofExcept (r : Except ErrorValue α) : Computes (ofExcept r) r := fun _ => rfl

theorem bind (hm : Computes m r) (hf : ∀ a, Computes (f a) (g a)) : Computes (m >>= f) (r >>= g) := by
  intro calls
  have hm := hm calls
  rw [run_bind]
  split
  · next a calls' heq =>
    rw [heq] at hm
    subst hm
    exact hf a calls'
  · next e calls' heq =>
    rw [heq] at hm
    subst hm
    rfl

end Computes

/-! ### Runs with arguments that are no errors -/

/-- No call was given an error, or a range with one in it. -/
def ArePlain (calls : List Application) : Prop := ∀ call ∈ calls, ∀ a ∈ call.arguments, a.IsPlain

/-- Something is true of the value that a run comes to, and no call of it is given an error. -/
def Ensures (Q : α → Prop) (m : Run α) : Prop :=
  ∀ calls, ArePlain calls → ArePlain (m.run.run calls).2 ∧ ∀ a, (m.run.run calls).1 = .ok a → Q a

namespace Ensures

variable {Q Q' : α → Prop} {R : β → Prop} {f : α → Run β}

theorem ofExcept {r : Except ErrorValue α} (h : ∀ a, r = .ok a → Q a) : Ensures Q (ofExcept r) :=
  fun _ hcalls => ⟨hcalls, h⟩

theorem pure {a : α} (h : Q a) : Ensures Q (Pure.pure a : Run α) := ofExcept fun _ ha => Except.ok.inj ha ▸ h

theorem bind (hm : Ensures Q m) (hf : ∀ a, Q a → Ensures R (f a)) : Ensures R (m >>= f) := by
  intro calls hcalls
  obtain ⟨hplain, hvalue⟩ := hm calls hcalls
  rw [run_bind]
  split
  · next a calls' heq =>
    rw [heq] at hplain hvalue
    exact hf a (hvalue a rfl) calls' hplain
  · next e calls' heq =>
    rw [heq] at hplain
    exact ⟨hplain, fun b hb => by cases hb⟩

/-- A call with arguments that are no errors is one more of its kind. -/
theorem call {behave : Behaviour} {function : Function} {args : List Argument} (h : ∀ a ∈ args, a.IsPlain) :
    Ensures (fun _ => True) (call behave function args) := fun _ hcalls =>
  ⟨List.forall_mem_cons.mpr ⟨h, hcalls⟩, fun _ _ => trivial⟩

end Ensures

end Run

section Evaluation

variable {behave : Behaviour} {ctx : EvaluationContext} {sheet : SheetId}

/-! ### Evaluation as a run -/

theorem evaluateExpr_unary (span : Option Span) (op : UnaryOperator) (x : Expr) :
    evaluateExpr ctx sheet (.unary span op x) = evaluateExpr ctx sheet x >>= fun v => op.apply ctx.locale v := by
  rw [evaluateExpr]
  cases evaluateExpr ctx sheet x <;> rfl

theorem evaluateExpr_binary (span : Option Span) (op : BinaryOperator) (l r : Expr) :
    evaluateExpr ctx sheet (.binary span op l r) =
      evaluateExpr ctx sheet l >>= fun v => evaluateExpr ctx sheet r >>= fun w => op.apply ctx.locale v w := by
  rw [evaluateExpr]
  cases evaluateExpr ctx sheet l with
  | error e => rfl
  | ok v => cases evaluateExpr ctx sheet r <;> rfl

theorem evaluateExpr_call (span : Option Span) (name : String) (xs : List Expr) :
    evaluateExpr ctx sheet (.call span name xs) =
      ctx.callee name xs.length >>= fun f => evaluateArguments ctx sheet xs >>= fun args =>
        f.apply ctx.locale args >>= returned := by
  rw [evaluateExpr]
  cases ctx.callee name xs.length with
  | error e => rfl
  | ok f =>
    cases evaluateArguments ctx sheet xs with
    | error e => rfl
    | ok args =>
      dsimp only [bind, Except.bind]
      cases f.apply ctx.locale args <;> rfl

theorem evaluateArguments_bind (x : Expr) (xs : List Expr) :
    evaluateArguments ctx sheet (x :: xs) =
      ctx.argument sheet x >>= fun a => evaluateArguments ctx sheet xs >>= fun args => pure (a :: args) := by
  rw [EvaluationContext.evaluateArguments_cons]
  cases ctx.argument sheet x with
  | error e => rfl
  | ok a => cases evaluateArguments ctx sheet xs <;> rfl

theorem computes_argument {x : Expr} {m : Run Value} (h : m.Computes (evaluateExpr ctx sheet x)) :
    Run.Computes (.argument (ctx.rangeArgument? sheet x) m) (ctx.argument sheet x) := by
  unfold Run.argument EvaluationContext.argument
  cases ctx.rangeArgument? sheet x with
  | some rows => exact .ofExcept rows
  | none =>
    have hvalue := h.bind fun v => .ofExcept (.ok (Argument.value v))
    cases hx : evaluateExpr ctx sheet x <;> rw [hx] at hvalue <;> exact hvalue

mutual

/-- **Evaluating with functions that do nothing but compute is evaluating.** The induction follows the tree. -/
theorem computes_runExpr : (x : Expr) →
    Run.Computes (runExpr (.computing ctx.locale) ctx sheet x) (evaluateExpr ctx sheet x)
  | .literal span v => by
    rw [runExpr.eq_def, evaluateExpr.eq_def]
    cases v <;> exact fun _ => rfl
  | .reference span written r => by
    rw [runExpr, evaluateExpr]
    exact .ofExcept _
  | .unary span op x => by
    rw [runExpr, evaluateExpr_unary]
    exact (computes_runExpr x).bind fun v => .ofExcept _
  | .binary span op l r => by
    rw [runExpr, evaluateExpr_binary]
    exact (computes_runExpr l).bind fun v => (computes_runExpr r).bind fun w => .ofExcept _
  | .call span name xs => by
    rw [runExpr, evaluateExpr_call]
    exact .bind (.ofExcept _) fun f => (computes_runArguments xs).bind fun args => .bind (fun _ => rfl) fun v =>
      .ofExcept _

/-- The same of the arguments of a call. -/
theorem computes_runArguments : (xs : List Expr) →
    Run.Computes (runArguments (.computing ctx.locale) ctx sheet xs) (evaluateArguments ctx sheet xs)
  | [] => by
    rw [runArguments, evaluateArguments]
    exact fun _ => rfl
  | x :: xs => by
    rw [runArguments, evaluateArguments_bind]
    exact .bind (computes_argument (computes_runExpr x)) fun a => (computes_runArguments xs).bind fun args =>
      .ofExcept _

end

/-! ### Evaluation with any functions -/

theorem not_error_of_returned {v w : Value} (h : returned v = .ok w) : w.isError = false := by
  cases v with
  | error e => cases h
  | number x =>
    have h : (finite x).map .number = .ok w := h
    cases hx : finite x <;> rw [hx] at h <;> cases h
    rfl
  | _ =>
    cases h
    rfl

/-- A range that can be read has no error in it. -/
theorem isPlain_of_rangeArgument {x : Expr} {rows : Except ErrorValue Argument} {a : Argument}
    (hrows : ctx.rangeArgument? sheet x = some rows) (ha : rows = .ok a) : a.IsPlain := by
  cases x with
  | reference span written r =>
    have hread : Gives (ctx.Traces sheet [(written, r)]) Argument.IsPlain
        (ctx.argument sheet (.reference span written r)) :=
      EvaluationContext.argument_gives (EvaluationContext.readReference_gives written r)
    unfold EvaluationContext.argument at hread
    rw [hrows] at hread
    exact hread.of_ok ha
  | literal span v => cases hrows
  | unary span op y => cases hrows
  | binary span op l r => cases hrows
  | call span name xs => cases hrows

/-- An argument is no error and has none in it. -/
theorem ensures_argument {x : Expr} {m : Run Value}
    (h : m.Ensures fun v => v.isError = false ∧ ∀ entry ∈ x.references, ctx.CanRead sheet entry) :
    Run.Ensures (fun a => a.IsPlain ∧ ∀ entry ∈ x.references, ctx.CanRead sheet entry)
      (.argument (ctx.rangeArgument? sheet x) m) := by
  unfold Run.argument
  cases hrows : ctx.rangeArgument? sheet x with
  | none => exact h.bind fun v ⟨hv, hread⟩ => .pure ⟨Argument.isPlain_value.mpr hv, hread⟩
  | some rows =>
    exact .ofExcept fun a ha =>
      ⟨isPlain_of_rangeArgument hrows ha, EvaluationContext.canRead_of_rangeArgument hrows ha⟩

mutual

/-- **Whatever a tree comes to, it has read all its references, and has called no function with an error.** The
induction follows the tree: where a part of it comes to an error, nothing else is done. -/
theorem ensures_runExpr : (x : Expr) →
    Run.Ensures (fun v => v.isError = false ∧ ∀ entry ∈ x.references, ctx.CanRead sheet entry)
      (runExpr behave ctx sheet x)
  | .literal span v => by
    rw [runExpr.eq_def]
    cases v with
    | error e => exact fun calls hcalls => ⟨hcalls, fun v hv => by cases hv⟩
    | _ => exact .pure ⟨rfl, fun entry hentry => absurd hentry List.not_mem_nil⟩
  | .reference span written r => by
    rw [runExpr]
    refine .ofExcept fun v hv => ⟨(EvaluationContext.readReference_gives written r).of_ok hv, fun entry hentry => ?_⟩
    rw [List.mem_singleton.mp hentry]
    exact Or.inl ⟨v, hv⟩
  | .unary span op x => by
    rw [runExpr]
    exact (ensures_runExpr x).bind fun v ⟨hv, hread⟩ => .ofExcept fun w hw =>
      ⟨(op.apply_givesOwn hv).of_ok hw, hread⟩
  | .binary span op l r => by
    rw [runExpr]
    exact (ensures_runExpr l).bind fun v ⟨hv, hread⟩ => (ensures_runExpr r).bind fun w ⟨hw, hread'⟩ =>
      .ofExcept fun u hu => ⟨(op.apply_givesOwn hv hw).of_ok hu, List.forall_mem_append.mpr ⟨hread, hread'⟩⟩
  | .call span name xs => by
    rw [runExpr]
    refine .bind (.ofExcept (Q := fun _ => True) fun _ _ => trivial) fun f _ =>
      (ensures_runArguments xs).bind fun args ⟨hplain, hread⟩ => (Run.Ensures.call hplain).bind fun v _ =>
        .ofExcept fun w hw => ⟨not_error_of_returned hw, hread⟩

/-- The same of the arguments of a call. -/
theorem ensures_runArguments : (xs : List Expr) →
    Run.Ensures (fun args => (∀ a ∈ args, a.IsPlain) ∧ ∀ entry ∈ Expr.referencesAll xs, ctx.CanRead sheet entry)
      (runArguments behave ctx sheet xs)
  | [] => by
    rw [runArguments]
    exact .pure ⟨fun a ha => absurd ha List.not_mem_nil, fun entry hentry => absurd hentry List.not_mem_nil⟩
  | x :: xs => by
    rw [runArguments]
    exact .bind (ensures_argument (ensures_runExpr x)) fun a ⟨ha, hread⟩ =>
      (ensures_runArguments xs).bind fun args ⟨hargs, hread'⟩ => .pure
        ⟨List.forall_mem_cons.mpr ⟨ha, hargs⟩, List.forall_mem_append.mpr ⟨hread, hread'⟩⟩

end

/-- The value that functions which do nothing but compute lead to is the value of the tree. -/
theorem evaluateNoting_computing (x : Expr) :
    (evaluateNoting (.computing ctx.locale) ctx sheet x).1 = evaluate ctx sheet x := by
  have h : ((runExpr (.computing ctx.locale) ctx sheet x).run.run []).1 = evaluateExpr ctx sheet x :=
    computes_runExpr x []
  unfold evaluateNoting evaluate
  rw [← h]
  split <;> next heq => rw [heq]

/-- **Errors poison their readers, however functions behave.** A tree with a reference to a cell that shows an error
and is not hidden comes to an error, and no function is called with an error or with a range that has one in it.
Functions that do nothing but compute are a case of this. -/
theorem poisons (behave : Behaviour) (ctx : EvaluationContext) (sheet : SheetId) (x : Expr) :
    (∀ entry ∈ x.references, ∀ a, ctx.resolve entry.2 sheet = .ok a → ∀ p, a.covers p = true →
        ctx.isObscured p = false → (ctx.value p).isError = true →
          (evaluateNoting behave ctx sheet x).1.isError = true ∧ (evaluate ctx sheet x).isError = true) ∧
      (∀ call ∈ (evaluateNoting behave ctx sheet x).2, ∀ arg ∈ call.arguments, ∀ v ∈ arg.values,
        v.isError = false) ∧
      (evaluateNoting (.computing ctx.locale) ctx sheet x).1 = evaluate ctx sheet x := by
  have hensures : Run.Ensures _ (runExpr behave ctx sheet x) := ensures_runExpr x
  obtain ⟨hplain, hvalue⟩ := hensures [] fun call hcall => absurd hcall List.not_mem_nil
  refine ⟨fun entry hentry a ha p hp hseen herror => ⟨?_, isError_evaluate hentry ha hp hseen herror⟩, ?_,
    evaluateNoting_computing x⟩
  · unfold evaluateNoting
    split
    · next v calls heq =>
      have hclean := ((hvalue v (by rw [heq])).2 entry hentry).isClean ha hp hseen
      rw [herror] at hclean
      cases hclean
    · rfl
  · unfold evaluateNoting
    split <;> next heq =>
      rw [heq] at hplain
      exact hplain

end Evaluation

/-- `=DICE(A1)=DICE(A1:B2)`, with an error in B2 and A2 hidden behind a merged region, and with a function that
answers by how often it has been called: the first call is made and the second is not, and the value is an error. -/
theorem poisons_secondCall :
    let sheet : SheetId := ⟨0, 0⟩
    let dice : Function :=
      { name := "DICE"
        traits := { pure := false }
        least := 1
        most := none
        apply := fun _ _ => .ok .empty }
    let range : Reference := .range none (.plain 1 1) (.plain 2 2)
    let x : Expr := .binary none .equal
      (.call none "DICE" [.reference none "A1" (.cell none (.plain 1 1))])
      (.call none "DICE" [.reference none "A1:B2" range])
    let scope : Scope := ⟨fun _ => none, fun _ => none, 26, 100⟩
    let ctx : EvaluationContext :=
      { locale := .invariant
        resolve := scope.resolve
        sheetName? := fun _ => some "a"
        value := fun p => if p.row = 2 then .error Cause.cycle.toError else .boolean true
        isObscured := fun p => p = ⟨sheet, 2, 1⟩
        function? := fun name => if name = "DICE" then some dice else none }
    let behave : Behaviour := fun calls _ _ => .ok (.boolean (calls.length % 2 = 0))
    ("A1:B2", range) ∈ x.references ∧ ctx.resolve range sheet = .ok (.range sheet (Rect.span 1 1 2 2)) ∧
      (Area.range sheet (Rect.span 1 1 2 2)).covers ⟨sheet, 2, 2⟩ = true ∧ ctx.isObscured ⟨sheet, 2, 2⟩ = false ∧
      (ctx.value ⟨sheet, 2, 2⟩).isError = true ∧ (evaluateNoting behave ctx sheet x).2.length = 1 ∧
      (evaluateNoting behave ctx sheet x).1.isError = true ∧ (evaluate ctx sheet x).isError = true ∧
      ∀ call ∈ (evaluateNoting behave ctx sheet x).2, ∀ arg ∈ call.arguments, ∀ v ∈ arg.values, v.isError = false := by
  intro sheet dice range x scope ctx behave
  have hentry : ("A1:B2", range) ∈ x.references := List.mem_cons_of_mem _ List.mem_cons_self
  have harea : ctx.resolve range sheet = .ok (.range sheet (Rect.span 1 1 2 2)) := rfl
  have hcovers : (Area.range sheet (Rect.span 1 1 2 2)).covers ⟨sheet, 2, 2⟩ = true := by decide
  have hseen : ctx.isObscured ⟨sheet, 2, 2⟩ = false := by decide
  obtain ⟨herror, hcalls, -⟩ := poisons behave ctx sheet x
  obtain ⟨hnoting, hvalue⟩ := herror _ hentry _ harea _ hcovers hseen rfl
  exact ⟨hentry, harea, hcovers, hseen, rfl, rfl, hnoting, hvalue, hcalls⟩

end Spreadsheet
