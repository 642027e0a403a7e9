import Spreadsheet.Function.Basic

/-!
# Logical functions

Conjunction and disjunction fold the truth values of all their arguments. All arguments of a
conditional have been evaluated before it chooses one.
-/

namespace Spreadsheet

namespace Function

/-- The truth values of the cells of a range; empty cells and texts do not count. -/
def cellLogical? : Value → Option Bool
  | .boolean b => some b
  | .number x | .date x | .time x => some (x != 0)
  | _ => none

/-- The truth values that a function over many arguments sees: an argument given as a value counts if
it is not empty, and must read as a truth value. -/
def logicalsOf : List Argument → Except ErrorValue (List Bool)
  | [] => .ok []
  | .value .empty :: rest => logicalsOf rest
  | .value v :: rest => do
    let b ← v.toBoolean
    let bs ← logicalsOf rest
    pure (b :: bs)
  | .range rows :: rest => do
    let bs ← logicalsOf rest
    pure (rows.flatten.filterMap cellLogical? ++ bs)

/-- A function that folds truth values into one; there must be one at least. -/
def foldingLogicals (name : String) (rule : List Bool → Bool) : Function :=
  .variadic name { reduction := true } 1 fun _ args => do
    let bs ← logicalsOf args
    if bs.isEmpty then .error (Cause.noLogicals name).toError else pure (.boolean (rule bs))

/-- The value `TRUE`. -/
def truth : Function := .constant "TRUE" {} (.boolean true)

/-- The value `FALSE`. -/
def falsity : Function := .constant "FALSE" {} (.boolean false)

/-- Whether all truth values are true. -/
def conjunction : Function := foldingLogicals "AND" fun bs => bs.all id

/-- Whether any truth value is true. -/
def disjunction : Function := foldingLogicals "OR" fun bs => bs.any id

/-- The other truth value. -/
def negation : Function :=
  .ofOne "NOT" {} fun _ a => do
    let b ← a.toBoolean
    pure (.boolean !b)

/-- One of two values, as a condition says; the second is `FALSE` if it is not given. -/
def conditional : Function where
  name := "IF"
  least := 2
  most := some 3
  apply _ args := do
    let b ← (args.getD 0 (.value .empty)).toBoolean
    if b then (args.getD 1 (.value .empty)).scalar
    else match args[2]? with
      | some a => a.scalar
      | none => pure (.boolean false)

/-- The logical functions. -/
def logic : List Function := [truth, falsity, conjunction, disjunction, negation, conditional]

end Function

end Spreadsheet
