import Spreadsheet.Formula.Operator

/-!
# Tokens

The text of a formula falls into tokens. Each keeps its text and the byte offsets at which it starts
and stops, so that an edit of a reference can be made in the text itself. A text that is no formula is
a single literal token.
-/

namespace Spreadsheet

/-- What a token is for. -/
inductive TokenKind where
  /-- A whole text that is no formula. -/
  | literal
  | operand
  /-- A function name with its opening parenthesis, or the parenthesis that closes the call. -/
  | call
  /-- A parenthesis that groups. -/
  | group
  | separator
  | prefixSign
  | infixSign
  | postfixSign
  | blank
  deriving DecidableEq, Repr

/-- What a token is more precisely: the kind of an operand, or the side of a parenthesis. -/
inductive TokenRole where
  | plain
  | text
  | number
  | logical
  | error
  | range
  | opening
  | closing
  | argument
  deriving DecidableEq, Repr

/-- The name of a kind in descriptions of tokens. -/
def TokenKind.name : TokenKind → String
  | .literal => "Literal"
  | .operand => "Operand"
  | .call => "Func"
  | .group => "Paren"
  | .separator => "Sep"
  | .prefixSign => "OpPrefix"
  | .infixSign => "OpInfix"
  | .postfixSign => "OpPostfix"
  | .blank => "Whitespace"

/-- The name of a role in descriptions of tokens. -/
def TokenRole.name : TokenRole → String
  | .plain => "None"
  | .text => "Text"
  | .number => "Number"
  | .logical => "Logical"
  | .error => "Error"
  | .range => "Range"
  | .opening => "Open"
  | .closing => "Close"
  | .argument => "Arg"

/-- The bytes from `start` up to `stop` of a text. -/
structure Span where
  start : Nat
  stop : Nat
  deriving DecidableEq, Repr

/-- A piece of a formula. -/
structure Token where
  text : String
  kind : TokenKind
  role : TokenRole
  span : Span
  deriving DecidableEq, Repr

namespace Token

/-- A description of a token. -/
def describe (t : Token) : String :=
  "<" ++ t.kind.name ++ " subtype: " ++ t.role.name ++ " value: " ++ t.text ++ ">"

/-- Whether a token is an operator. -/
def isOperator (t : Token) : Bool :=
  t.kind == .prefixSign || t.kind == .infixSign || t.kind == .postfixSign

/-- The binding strength of a token as an operator. -/
def strength? (t : Token) : Option Strength :=
  if t.kind = .prefixSign then some prefixStrength else Spreadsheet.strength? t.text

/-- Whether a sign after this token joins two operands: the token ends an operand. -/
def endsOperand (t : Token) : Bool :=
  t.role == .closing || t.kind == .postfixSign || t.kind == .operand

/-- The text that tokens were read from. -/
def render : List Token → String
  | [] => ""
  | t :: ts =>
    if t.kind = .literal then t.text
    else "=" ++ String.join ((t :: ts).map Token.text)

end Token

end Spreadsheet
