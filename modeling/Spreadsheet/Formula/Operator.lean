/-!
# Operators

The operators of formulas with their symbols and binding strengths. Prefix signs bind tightest, then
the percent sign after its operand, then `^`, products, sums, joining of texts, and comparisons last.
Binary operators group to the left. Trees and tokens made by hand may hold symbols that are no operator
of the language; these have a case of their own, so that nothing is lost.
-/

namespace Spreadsheet

/-- Operators with one operand. -/
inductive UnaryOperator where
  | plus
  | minus
  | percent
  | other (symbol : String)
  deriving DecidableEq, Repr

/-- Operators with two operands. -/
inductive BinaryOperator where
  | power
  | times
  | divide
  | plus
  | minus
  | join
  | equal
  | different
  | less
  | greater
  | atMost
  | atLeast
  | other (symbol : String)
  deriving DecidableEq, Repr

/-- Which operand of two equal operators in a row binds first. -/
inductive Grouping where
  | left
  | right
  deriving DecidableEq, Repr

/-- The name of a direction of grouping. -/
def Grouping.name : Grouping → String
  | .left => "Left"
  | .right => "Right"

namespace UnaryOperator

/-- The operator with a symbol. -/
def ofSymbol (s : String) : UnaryOperator :=
  if s = "+" then .plus else if s = "-" then .minus else if s = "%" then .percent else .other s

/-- The symbol of an operator. -/
def symbol : UnaryOperator → String
  | .plus => "+"
  | .minus => "-"
  | .percent => "%"
  | .other s => s

end UnaryOperator

namespace BinaryOperator

/-- The operators of the language. -/
def all : List BinaryOperator :=
  [.power, .times, .divide, .plus, .minus, .join, .equal, .different, .less, .greater, .atMost,
    .atLeast]

/-- The symbol of an operator. -/
def symbol : BinaryOperator → String
  | .power => "^"
  | .times => "*"
  | .divide => "/"
  | .plus => "+"
  | .minus => "-"
  | .join => "&"
  | .equal => "="
  | .different => "<>"
  | .less => "<"
  | .greater => ">"
  | .atMost => "<="
  | .atLeast => ">="
  | .other s => s

/-- The operator with a symbol. -/
def ofSymbol (s : String) : BinaryOperator :=
  match all.find? fun op => op.symbol = s with
  | some op => op
  | none => .other s

theorem symbol_ofSymbol (s : String) : (ofSymbol s).symbol = s := by
  unfold ofSymbol
  split
  · next op h => simpa using List.find?_some h
  · rfl

end BinaryOperator

theorem UnaryOperator.symbol_ofSymbol (s : String) : (ofSymbol s).symbol = s := by
  unfold ofSymbol
  split <;> try split <;> try split
  all_goals simp_all [symbol]

/-- How strongly an operator binds and how it groups. -/
structure Strength where
  level : Nat
  grouping : Grouping
  deriving DecidableEq, Repr

/-- The strength of the prefix signs. -/
def prefixStrength : Strength := ⟨7, .right⟩

/-- The strength of the operator with a symbol; `u` stands for a prefix sign. -/
def strength? (symbol : String) : Option Strength :=
  if symbol = "u" then some prefixStrength
  else if symbol = "%" then some ⟨6, .left⟩
  else if symbol = "^" then some ⟨5, .left⟩
  else if symbol = "*" ∨ symbol = "/" then some ⟨4, .left⟩
  else if symbol = "+" ∨ symbol = "-" then some ⟨3, .left⟩
  else if symbol = "&" then some ⟨2, .left⟩
  else if symbol ∈ ["=", "<", ">", "<=", ">=", "<>"] then some ⟨1, .left⟩
  else none

/-- The binding strength of a binary operator. -/
def BinaryOperator.level? (op : BinaryOperator) : Option Nat :=
  (strength? op.symbol).map Strength.level

end Spreadsheet
