import Spreadsheet.Formula.Expr.Parser

/-!
# Writing expressions

The canonical text of a tree: references in capitals, no blanks, and parentheses only where the text
would otherwise be read as another tree. An operand of a binary operator is wrapped when it is a binary
operation that binds more weakly, and on the right also when it binds equally; the operand of a prefix
sign when it is any binary operation; the operand of a percent sign when it is a binary or a signed one.
-/

namespace Spreadsheet

namespace Expr

/-- The strength of the operator of a binary operation, if it has one. -/
def binaryLevel? : Expr → Option Nat
  | .binary _ op _ _ => op.level?
  | _ => none

/-- Whether a tree is an operand with a sign in front. -/
def isSigned : Expr → Bool
  | .unary _ op _ => op != .percent
  | _ => false

/-- Whether a tree is a binary operation whose strength satisfies a test. -/
def bindsSuchThat (x : Expr) (test : Nat → Bool) : Bool :=
  x.binaryLevel?.any test

/-- Puts parentheses around a text if asked to. -/
def wrap (needed : Bool) (s : String) : String :=
  if needed then "(" ++ s ++ ")" else s

/-- Writes every double quote twice. -/
def doubleTextQuotes (cs : List Char) : List Char :=
  cs.flatMap fun c => if c = '"' then ['"', '"'] else [c]

/-- A value as a literal of a formula. -/
def literalText (locale : Locale) : Value → String
  | .text s => String.ofList ('"' :: doubleTextQuotes s.toList ++ ['"'])
  | v => v.sourceText locale.decimal

mutual

/-- The text of a tree, without the leading equals sign. -/
def body (locale : Locale) : Expr → String
  | .literal _ v => literalText locale v
  | .reference _ _ r => r.text
  | .unary _ op x =>
    if op = .percent then
      wrap (x.binaryLevel?.isSome || x.isSigned) (x.body locale) ++ op.symbol
    else op.symbol ++ wrap (x.bindsSuchThat (· < prefixStrength.level)) (x.body locale)
  | .binary _ op l r =>
    let level := op.level?.getD 0
    wrap (l.bindsSuchThat (· < level)) (l.body locale) ++ op.symbol ++
      wrap (r.bindsSuchThat (· ≤ level)) (r.body locale)
  | .call _ name xs => name ++ "(" ++ bodies locale xs ++ ")"

/-- The texts of arguments with separators between them. -/
def bodies (locale : Locale) : List Expr → String
  | [] => ""
  | [x] => x.body locale
  | x :: y :: xs => x.body locale ++ locale.separator.toString ++ bodies locale (y :: xs)

end

/-- The canonical text of a formula. -/
def print (locale : Locale) (x : Expr) : String :=
  "=" ++ x.body locale

end Expr

/-- Reads a formula and writes it in its canonical form. -/
def canonical (locale : Locale) (text : String) : Except ParseError String :=
  (Expr.parse locale text).map (Expr.print locale)

end Spreadsheet
