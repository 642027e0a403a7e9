import Spreadsheet.Value.Coercion

/-!
# Functions

A function is a name, a number of arguments and a rule that computes a value. The evaluator checks the
number of arguments and passes on errors before it applies the rule, so a rule never sees an error as
an argument. Ranges reach a function as rows of values; what a range means is up to the function.
-/

namespace Spreadsheet

/-- An evaluated argument: a value, or the rows of a range. -/
inductive Argument where
  | value (v : Value)
  | range (rows : List (List Value))

namespace Argument

/-- Whether an argument is a range. -/
def isRange : Argument → Bool
  | .range _ => true
  | .value _ => false

/-- All values of an argument, row by row. -/
def values : Argument → List Value
  | .value v => [v]
  | .range rows => rows.flatten

/-- The one value of an argument: a value, the only cell of a range, or the empty value of an empty
range. -/
def scalar : Argument → Except ErrorValue Value
  | .value v => .ok v
  | .range [[v]] => .ok v
  | .range [] => .ok .empty
  | .range _ => .error Cause.rangeAsArgument.toError

/-- The one value of an argument as a number. -/
def toNumber (locale : Locale) (a : Argument) : Except ErrorValue Float := do
  let v ← a.scalar
  v.toNumber locale

/-- The one value of an argument as an integer, cut toward zero and held within a machine word. -/
def toWord (locale : Locale) (a : Argument) : Except ErrorValue Int64 := do
  let x ← a.toNumber locale
  pure (Numeric.truncateToWord x)

/-- The one value of an argument as a text. -/
def toText (locale : Locale) (a : Argument) : Except ErrorValue String := do
  let v ← a.scalar
  v.toText locale

/-- The one value of an argument as a truth value. -/
def toBoolean (a : Argument) : Except ErrorValue Bool := do
  let v ← a.scalar
  v.toBoolean

end Argument

/-- The numbers that a function over many arguments sees: an argument given as a value counts if it is
not empty and must be a number or spell one; a cell of a range counts only if it holds a number. -/
def numbersOf (locale : Locale) : List Argument → Except ErrorValue (List Float)
  | [] => .ok []
  | .value .empty :: rest => numbersOf locale rest
  | .value v :: rest => do
    let x ← v.toNumber locale
    let xs ← numbersOf locale rest
    pure (x :: xs)
  | .range rows :: rest => do
    let xs ← numbersOf locale rest
    pure (rows.flatten.filterMap Value.serial? ++ xs)

/-- What is known of a function without applying it. -/
structure Traits where
  /-- The same arguments give the same value, and nothing else happens. -/
  pure : Bool := true
  /-- Any number of values, ranges included, are folded into one. -/
  reduction : Bool := false
  /-- Only numbers are meaningful arguments. -/
  numeric : Bool := false
  deriving DecidableEq, Repr

/-- The traits as a number, one binary digit each. -/
def Traits.code (t : Traits) : Nat :=
  (if t.pure then 1 else 0) + (if t.reduction then 2 else 0) + (if t.numeric then 4 else 0)

/-- A named function. -/
structure Function where
  name : String
  traits : Traits := {}
  /-- The least number of arguments. -/
  least : Nat := 0
  /-- The greatest number of arguments, unless there is no limit. -/
  most : Option Nat := some 0
  /-- The value for given arguments, as many as the function takes. -/
  apply : Locale → List Argument → Except ErrorValue Value

namespace Function

/-- Whether a function takes any number of arguments from its least number on. -/
def isVariadic (f : Function) : Bool := f.most.isNone

/-- Whether a function takes a number of arguments. -/
def accepts (f : Function) (count : Nat) : Bool :=
  f.least ≤ count && f.most.all (count ≤ ·)

/-- The number of arguments of a function as a message has it. -/
def arity (f : Function) : Arity :=
  match f.most with
  | none => .atLeast f.least
  | some most => if most = f.least then .exactly most else .between f.least most

/-- A function of no arguments. -/
def constant (name : String) (traits : Traits) (value : Value) : Function where
  name := name
  traits := traits
  apply _ _ := .ok value

/-- A function of one argument. -/
def ofOne (name : String) (traits : Traits)
    (rule : Locale → Argument → Except ErrorValue Value) : Function where
  name := name
  traits := traits
  least := 1
  most := some 1
  apply locale args := rule locale (args.headD (.value .empty))

/-- A function of two arguments. -/
def ofTwo (name : String) (traits : Traits)
    (rule : Locale → Argument → Argument → Except ErrorValue Value) : Function where
  name := name
  traits := traits
  least := 2
  most := some 2
  apply locale args := rule locale (args.getD 0 (.value .empty)) (args.getD 1 (.value .empty))

/-- A function of three arguments. -/
def ofThree (name : String) (traits : Traits)
    (rule : Locale → Argument → Argument → Argument → Except ErrorValue Value) : Function where
  name := name
  traits := traits
  least := 3
  most := some 3
  apply locale args :=
    rule locale (args.getD 0 (.value .empty)) (args.getD 1 (.value .empty))
      (args.getD 2 (.value .empty))

/-- A function of one argument or two. -/
def ofOneOrTwo (name : String) (traits : Traits)
    (rule : Locale → Argument → Option Argument → Except ErrorValue Value) : Function where
  name := name
  traits := traits
  least := 1
  most := some 2
  apply locale args := rule locale (args.headD (.value .empty)) args[1]?

/-- A function of any number of arguments from `least` on. -/
def variadic (name : String) (traits : Traits) (least : Nat)
    (rule : Locale → List Argument → Except ErrorValue Value) : Function where
  name := name
  traits := traits
  least := least
  most := none
  apply := rule

end Function

end Spreadsheet
