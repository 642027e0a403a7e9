import Spreadsheet.Evaluation.Resolution
import Spreadsheet.Formula.Expr.Basic
import Spreadsheet.Function.Arithmetic
import Spreadsheet.Function.Library
import Spreadsheet.Value.Order

/-!
# Evaluating expressions

The value of a tree, in a context that says what references mean, what cells hold and which functions
there are. Evaluation reads the grid and changes nothing; that the cells it reads are up to date is
none of its business. Errors end it: the leftmost error is the value of the whole formula. Hidden cells
of merged regions read as zero on their own and are left out of ranges.
-/

namespace Spreadsheet

open Grid

/-- All that evaluation reads. -/
structure EvaluationContext where
  locale : Locale
  resolve : Reference → SheetId → Except ResolutionProblem Area
  sheetName? : SheetId → Option String
  value : Position → Value
  isObscured : Position → Bool
  function? : String → Option Function

namespace EvaluationContext

variable (ctx : EvaluationContext)

/-- The error that a formula gets for reading an error at a position. -/
def propagated (e : ErrorValue) (p : Position) : ErrorValue :=
  e.propagated (ctx.sheetName? p.sheet) p.col p.row

/-- The area that a reference means, or the error it gives. -/
def area (written : String) (r : Reference) (sheet : SheetId) : Except ErrorValue Area :=
  match ctx.resolve r sheet with
  | .ok a => .ok a
  | .error problem => .error (problem.toError written)

/-- The value of one cell. -/
def readPoint (p : Position) : Except ErrorValue Value :=
  if ctx.isObscured p then .ok (.number 0)
  else
    match ctx.value p with
    | .error e => .error (ctx.propagated e p)
    | v => .ok v

/-- The values of the cells in one row of a range, hidden cells left out. -/
def readRow (sheet : SheetId) (row : Nat) : List Nat → Except ErrorValue (List Value)
  | [] => .ok []
  | col :: cols =>
    let p : Position := ⟨sheet, row, col⟩
    if ctx.isObscured p then readRow sheet row cols
    else
      match ctx.value p with
      | .error e => .error (ctx.propagated e p)
      | v =>
        match readRow sheet row cols with
        | .ok vs => .ok (v :: vs)
        | .error e => .error e

/-- The values of the cells of a range, row by row; rows without any are left out. -/
def readRows (sheet : SheetId) (cols : List Nat) : List Nat → Except ErrorValue (List (List Value))
  | [] => .ok []
  | row :: rows =>
    match ctx.readRow sheet row cols with
    | .error e => .error e
    | .ok vs =>
      match readRows sheet cols rows with
      | .error e => .error e
      | .ok rest => .ok (if vs.isEmpty then rest else vs :: rest)

/-- The lines from one to another. -/
def lines (first last : Nat) : List Nat := List.range' first (last + 1 - first)

/-- The values of the cells of a rectangle. -/
def readRange (sheet : SheetId) (r : Rect) : Except ErrorValue (List (List Value)) :=
  ctx.readRows sheet (lines r.left r.right) (lines r.top r.bottom)

/-- The value of a reference where one value is wanted. -/
def readReference (written : String) (r : Reference) (sheet : SheetId) : Except ErrorValue Value :=
  match ctx.area written r sheet with
  | .error e => .error e
  | .ok (.point p) => ctx.readPoint p
  | .ok (.range id rect) =>
    if rect.isSingle then ctx.readPoint ⟨id, rect.top, rect.left⟩
    else .error (Cause.rangeAsValue written).toError

/-- The rows of an argument that is a reference to a range; nothing for any other argument. -/
def rangeArgument? (sheet : SheetId) : Expr → Option (Except ErrorValue Argument)
  | .reference _ written r =>
    match ctx.area written r sheet with
    | .error e => some (.error e)
    | .ok (.range id rect) => some ((ctx.readRange id rect).map .range)
    | .ok (.point _) => none
  | _ => none

end EvaluationContext

/-- Applies an operator with one operand. -/
def UnaryOperator.apply (locale : Locale) (op : UnaryOperator) (v : Value) : Except ErrorValue Value := do
  let x ← v.toNumber locale
  let y ← match op with
    | .minus => pure (-x)
    | .plus => pure x
    | .percent => pure (x / 100)
    | .other s => .error (Cause.noUnary s).toError
  let y ← finite y
  pure (.number y)

/-- Applies an operation on two numbers. -/
def arithmetic (locale : Locale) (operation : Float → Float → Except ErrorValue Float) (v w : Value) :
    Except ErrorValue Value := do
  let x ← v.toNumber locale
  let y ← w.toNumber locale
  let z ← operation x y
  let z ← finite z
  pure (.number z)

/-- Applies an operator with two operands. -/
def BinaryOperator.apply (locale : Locale) (op : BinaryOperator) (v w : Value) :
    Except ErrorValue Value :=
  match op with
  | .plus => arithmetic locale (fun x y => .ok (x + y)) v w
  | .minus => arithmetic locale (fun x y => .ok (x - y)) v w
  | .times => arithmetic locale (fun x y => .ok (x * y)) v w
  | .divide => arithmetic locale quotient v w
  | .power => arithmetic locale raise v w
  | .join => do
    let s ← v.toText locale
    let t ← w.toText locale
    pure (.text (s ++ t))
  | .equal => .ok (.boolean (v.order w == .eq))
  | .different => .ok (.boolean (v.order w != .eq))
  | .less => .ok (.boolean (v.order w == .lt))
  | .greater => .ok (.boolean (v.order w == .gt))
  | .atMost => .ok (.boolean (v.order w != .gt))
  | .atLeast => .ok (.boolean (v.order w != .lt))
  | .other s => .error (Cause.noBinary s).toError

/-- The function that a call means, if it takes the number of arguments. -/
def EvaluationContext.callee (ctx : EvaluationContext) (name : String) (count : Nat) :
    Except ErrorValue Function :=
  match ctx.function? name with
  | none => .error (Cause.noFunction name).toError
  | some f =>
    if f.accepts count then .ok f else .error (Cause.wrongCount name f.arity count).toError

/-- What a function has returned, as the value of its call: an error ends evaluation, and a number has
to be finite. -/
def returned : Value → Except ErrorValue Value
  | .error e => .error e
  | .number x => (finite x).map .number
  | v => .ok v

mutual

/-- The value of a tree in a formula on a sheet, or the error that ends its evaluation. -/
def evaluateExpr (ctx : EvaluationContext) (sheet : SheetId) : Expr → Except ErrorValue Value
  | .literal _ (.error e) => .error e
  | .literal _ v => .ok v
  | .reference _ written r => ctx.readReference written r sheet
  | .unary _ op x =>
    match evaluateExpr ctx sheet x with
    | .error e => .error e
    | .ok v => op.apply ctx.locale v
  | .binary _ op l r =>
    match evaluateExpr ctx sheet l with
    | .error e => .error e
    | .ok v =>
      match evaluateExpr ctx sheet r with
      | .error e => .error e
      | .ok w => op.apply ctx.locale v w
  | .call _ name xs =>
    match ctx.callee name xs.length with
    | .error e => .error e
    | .ok f =>
      match evaluateArguments ctx sheet xs with
      | .error e => .error e
      | .ok args =>
        match f.apply ctx.locale args with
        | .error e => .error e
        | .ok v => returned v

/-- The arguments of a call, from the left. -/
def evaluateArguments (ctx : EvaluationContext) (sheet : SheetId) :
    List Expr → Except ErrorValue (List Argument)
  | [] => .ok []
  | x :: xs =>
    let first : Except ErrorValue Argument :=
      match ctx.rangeArgument? sheet x with
      | some rows => rows
      | none => (evaluateExpr ctx sheet x).map .value
    match first with
    | .error e => .error e
    | .ok a =>
      match evaluateArguments ctx sheet xs with
      | .error e => .error e
      | .ok args => .ok (a :: args)

end

/-- The value that a cell on a sheet stores for a tree: what it evaluates to, or the error. -/
def evaluate (ctx : EvaluationContext) (sheet : SheetId) (x : Expr) : Value :=
  match evaluateExpr ctx sheet x with
  | .ok v => v
  | .error e => .error e

/-! ### A run of evaluations -/

/-- How the last evaluation of a run ended, if there was one. -/
inductive Outcome where
  | idle
  | done
  | failed
  deriving DecidableEq, Repr

/-- The name of an outcome. -/
def Outcome.name : Outcome → String
  | .idle => "Idle"
  | .done => "Done"
  | .failed => "Error"

/-- Evaluations one after the other in one context, with the sheet of the formulas. -/
structure Evaluator where
  context : EvaluationContext
  sheet : SheetId
  outcome : Outcome := .idle

namespace Evaluator

/-- Evaluates a tree as a formula on a sheet; the sheet of the run stays what it is. -/
def evaluateOn (e : Evaluator) (sheet : SheetId) (x : Expr) : Value × Evaluator :=
  let v := Spreadsheet.evaluate e.context sheet x
  (v, { e with outcome := if v.isError then .failed else .done })

/-- Evaluates a tree as a formula on the sheet of the run. -/
def evaluate (e : Evaluator) (x : Expr) : Value × Evaluator :=
  e.evaluateOn e.sheet x

end Evaluator

end Spreadsheet
