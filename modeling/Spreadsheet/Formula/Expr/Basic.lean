import Spreadsheet.Formula.Reference
import Spreadsheet.Formula.Token.Basic
import Spreadsheet.Value.Basic

/-!
# Expressions

The tree of a formula. Every node remembers the span of the token it comes from, and a reference also
how it was written, which messages repeat. `Expr.bare` forgets both, so two trees that mean the same
compare as equal.
-/

namespace Spreadsheet

/-- The tree of a formula. -/
inductive Expr where
  | literal (span : Option Span) (value : Value)
  | reference (span : Option Span) (written : String) (target : Reference)
  | unary (span : Option Span) (op : UnaryOperator) (operand : Expr)
  | binary (span : Option Span) (op : BinaryOperator) (left right : Expr)
  | call (span : Option Span) (name : String) (arguments : List Expr)

instance : Inhabited Expr := ⟨.literal none .empty⟩

namespace Expr

/-- The span of the token that a node comes from. -/
def span? : Expr → Option Span
  | .literal s _ | .reference s _ _ | .unary s _ _ | .binary s _ _ _ | .call s _ _ => s

/-- What is written where an argument is left out: an empty value that no token stands for. -/
def omitted : Expr := .literal none .empty

mutual

/-- The tree without spans and without the spelling of references. -/
def bare : Expr → Expr
  | .literal _ v => .literal none v
  | .reference _ _ r => .reference none "" r
  | .unary _ op x => .unary none op x.bare
  | .binary _ op l r => .binary none op l.bare r.bare
  | .call _ name xs => .call none name (bareAll xs)

/-- The trees of arguments without spans and spellings. -/
def bareAll : List Expr → List Expr
  | [] => []
  | x :: xs => x.bare :: bareAll xs

end

mutual

/-- The references of a formula with their spelling, in the order in which they are evaluated. -/
def references : Expr → List (String × Reference)
  | .literal _ _ => []
  | .reference _ written r => [(written, r)]
  | .unary _ _ x => x.references
  | .binary _ _ l r => l.references ++ r.references
  | .call _ _ xs => referencesAll xs

/-- The references of arguments, in order. -/
def referencesAll : List Expr → List (String × Reference)
  | [] => []
  | x :: xs => x.references ++ referencesAll xs

end

mutual

/-- A description of a tree that shows its structure. -/
def describe : Expr → String
  | .literal _ v => "Literal(" ++ v.display ++ ")"
  | .reference _ _ r => "Reference(" ++ r.text ++ ")"
  | .unary _ op x => "UnaryOp(" ++ op.symbol ++ ", " ++ x.describe ++ ")"
  | .binary _ op l r => "BinaryOp(" ++ op.symbol ++ ", " ++ l.describe ++ ", " ++ r.describe ++ ")"
  | .call _ name xs => "Function(" ++ name ++ describeAll xs ++ ")"

/-- Descriptions of arguments, each after a comma. -/
def describeAll : List Expr → String
  | [] => ""
  | x :: xs => ", " ++ x.describe ++ describeAll xs

end

theorem bareAll_eq_map (xs : List Expr) : bareAll xs = xs.map bare := by
  induction xs with
  | nil => rfl
  | cons x xs ih => simp [bareAll, ih]

theorem referencesAll_eq_flatMap (xs : List Expr) : referencesAll xs = xs.flatMap references := by
  induction xs with
  | nil => rfl
  | cons x xs ih => simp [referencesAll, ih]

end Expr

end Spreadsheet
