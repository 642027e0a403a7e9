import Spreadsheet.Formula.Expr.Basic
import Spreadsheet.Formula.Token.Lexer

/-!
# Reading expressions

Tokens without their blanks are read by precedence: signs in front of an operand, then percent signs
behind it, then binary operators by strength, all of them grouping to the left. An argument of a
function may be left out.

Every reader returns what it has read and the tokens that remain, with a proof that they have become
fewer; the readers call each other on fewer tokens, or on the same tokens one level further down, so
all of them end.
-/

namespace Spreadsheet

/-- Why tokens are no formula. -/
inductive ParseError where
  | lexical (e : LexError)
  | emptyFormula
  | unexpectedToken (text : String) (position : Nat)
  | unexpectedEnd (position : Option Nat)
  | unclosedGroup (position : Option Nat)
  | unclosedCall (separator : Char) (position : Option Nat)
  | invalidNumber (text : String) (position : Nat)
  | unknownErrorCode (text : String) (position : Nat)
  | invalidReference (text : String) (problem : ReferenceError) (position : Nat)
  | unexpectedOperand (text : String) (position : Nat)
  deriving DecidableEq, Repr

namespace ParseError

/-- The message of a parse error. -/
def message : ParseError → String
  | lexical e => e.message
  | emptyFormula => "Empty formula"
  | unexpectedToken t _ => "Unexpected token '" ++ t ++ "'"
  | unexpectedEnd _ => "Unexpected end of formula"
  | unclosedGroup _ => "Expected closing parenthesis"
  | unclosedCall c _ => "Expected '" ++ c.toString ++ "' or ')' in function arguments"
  | invalidNumber t _ => "Invalid number: " ++ t
  | unknownErrorCode t _ => "Unknown error literal " ++ t
  | invalidReference t problem _ => "Invalid reference '" ++ t ++ "': " ++ problem.message
  | unexpectedOperand t _ => "Unexpected operand '" ++ t ++ "'"

/-- The byte offset where a parse error was found, if there is one. -/
def position? : ParseError → Option Nat
  | lexical e => some e.position
  | emptyFormula => none
  | unexpectedEnd p | unclosedGroup p | unclosedCall _ p => p
  | unexpectedToken _ p | invalidNumber _ p | unknownErrorCode _ p | invalidReference _ _ p
  | unexpectedOperand _ p => some p

/-- A parse error with the word for its kind and its position. -/
def display (e : ParseError) : String :=
  match e.position? with
  | some p => "ParserError at position " ++ toString p ++ ": " ++ e.message
  | none => "ParserError: " ++ e.message

/-- The error value of a formula that cannot be read. -/
def toError (e : ParseError) : ErrorValue := (Cause.unreadable e.display).toError

end ParseError

/-- What the readers need to know besides the tokens: the locale, and where the last token stops. -/
structure Reading where
  locale : Locale
  lastStop : Option Nat

/-- Something read from tokens, and the tokens that remain. -/
abbrev ReadFrom (α : Type) (ts : List Token) :=
  Except ParseError (α × { rest : List Token // rest.length < ts.length })

namespace Expr

/-- Makes every doubled double quote single. -/
def singleQuotes : List Char → List Char
  | '"' :: '"' :: cs => '"' :: singleQuotes cs
  | c :: cs => c :: singleQuotes cs
  | [] => []

/-- The text that a quoted literal stands for; a text without quotes around it stands for itself. -/
def unquote (s : String) : String :=
  match s.toList with
  | '"' :: cs =>
    if cs.getLast? = some '"' then String.ofList (singleQuotes cs.dropLast) else s
  | _ => s

/-- The error that a code in a formula stands for. The code may follow a qualifier. An invalid
reference is what deleting lines leaves behind, and says so. -/
def errorLiteral? (s : String) : Option ErrorValue :=
  let code := s.toList.dropWhile (· ≠ '#')
  let found := ErrorValue.ofCode? (if code = [] then s else String.ofList code)
  found.map fun e => if e.kind = .invalidReference then Cause.deletedReference.toError else e

/-- The leaf that an operand stands for. -/
def ofOperand (locale : Locale) (t : Token) : Except ParseError Expr :=
  match t.role with
  | .number =>
    match locale.readNumber t.text with
    | some x => .ok (.literal (some t.span) (.number x))
    | none => .error (.invalidNumber t.text t.span.start)
  | .text => .ok (.literal (some t.span) (.text (unquote t.text)))
  | .logical => .ok (.literal (some t.span) (.boolean (Text.sameAscii t.text "TRUE")))
  | .error =>
    match errorLiteral? t.text with
    | some e => .ok (.literal (some t.span) (.error e))
    | none => .error (.unknownErrorCode t.text t.span.start)
  | .range =>
    match Reference.parse t.text with
    | .ok r => .ok (.reference (some t.span) t.text r)
    | .error e => .error (.invalidReference t.text e t.span.start)
  | _ => .error (.unexpectedOperand t.text t.span.start)

/-- The name of a function, from the token that opens its call. -/
def functionName (t : Token) : String :=
  String.ofList t.text.toList.dropLast

/-- Whether the next token separates two arguments. -/
def atSeparator : List Token → Bool
  | t :: _ => t.kind == .separator && t.role == .argument
  | [] => false

/-- Whether the next token closes a call. -/
def atCallEnd : List Token → Bool
  | t :: _ => t.kind == .call && t.role == .closing
  | [] => false

/-- Applies the percent signs that follow an operand. -/
def applyPostfixes (x : Expr) : List Token → Expr × List Token
  | [] => (x, [])
  | t :: ts =>
    if t.kind = .postfixSign then
      applyPostfixes (.unary (some t.span) (.ofSymbol t.text) x) ts
    else (x, t :: ts)

theorem length_applyPostfixes (x : Expr) (ts : List Token) :
    (applyPostfixes x ts).2.length ≤ ts.length := by
  induction ts generalizing x with
  | nil => simp [applyPostfixes]
  | cons t ts ih =>
    unfold applyPostfixes
    split
    · exact Nat.le_succ_of_le (ih _)
    · exact Nat.le_refl _

mutual

/-- Reads operands joined by operators that bind at least as strongly as `least`. -/
def readBinary (r : Reading) (least : Nat) (ts : List Token) : ReadFrom Expr ts :=
  match readSigned r ts with
  | .error e => .error e
  | .ok (left, ⟨rest, h⟩) =>
    match climb r least left rest with
    | .error e => .error e
    | .ok (x, ⟨rest', h'⟩) => .ok (x, ⟨rest', by omega⟩)
termination_by 7 * ts.length + 4

/-- Goes on behind a left operand, as long as an operator follows that binds strongly enough. -/
def climb (r : Reading) (least : Nat) (left : Expr) (ts : List Token) :
    Except ParseError (Expr × { rest : List Token // rest.length ≤ ts.length }) :=
  match ts with
  | [] => .ok (left, ⟨[], Nat.le_refl _⟩)
  | t :: rest =>
    let strength := t.strength?.getD ⟨0, .left⟩
    if t.kind ≠ .infixSign ∨ strength.level < least then .ok (left, ⟨t :: rest, Nat.le_refl _⟩)
    else
      let next := if strength.grouping = .left then strength.level + 1 else strength.level
      match readBinary r next rest with
      | .error e => .error e
      | .ok (right, ⟨rest', h⟩) =>
        match climb r least (.binary (some t.span) (.ofSymbol t.text) left right) rest' with
        | .error e => .error e
        | .ok (x, ⟨rest'', h'⟩) => .ok (x, ⟨rest'', by simp only [List.length_cons]; omega⟩)
termination_by 7 * ts.length + 0

/-- Reads an operand with the signs in front of it. -/
def readSigned (r : Reading) (ts : List Token) : ReadFrom Expr ts :=
  match ts with
  | t :: rest =>
    if t.kind = .prefixSign then
      match readSigned r rest with
      | .error e => .error e
      | .ok (x, ⟨rest', h⟩) =>
        .ok (.unary (some t.span) (.ofSymbol t.text) x, ⟨rest', by simp only [List.length_cons]; omega⟩)
    else readPostfixed r (t :: rest)
  | [] => readPostfixed r []
termination_by 7 * ts.length + 3

/-- Reads an operand with the percent signs behind it. -/
def readPostfixed (r : Reading) (ts : List Token) : ReadFrom Expr ts :=
  match readPrimary r ts with
  | .error e => .error e
  | .ok (x, ⟨rest, h⟩) =>
    let result := applyPostfixes x rest
    .ok (result.1, ⟨result.2, Nat.lt_of_le_of_lt (length_applyPostfixes x rest) h⟩)
termination_by 7 * ts.length + 2

/-- Reads a leaf, a group in parentheses or a call. -/
def readPrimary (r : Reading) (ts : List Token) : ReadFrom Expr ts :=
  match ts with
  | [] => .error (.unexpectedEnd r.lastStop)
  | t :: rest =>
    if t.kind = .operand then
      match ofOperand r.locale t with
      | .error e => .error e
      | .ok x => .ok (x, ⟨rest, by simp⟩)
    else if t.kind = .call ∧ t.role = .opening then
      if atCallEnd rest then
        .ok (.call (some t.span) (functionName t) [],
          ⟨rest.tail, by simp only [List.length_tail, List.length_cons]; omega⟩)
      else
        match readArguments r rest with
        | .error e => .error e
        | .ok (xs, ⟨rest', h⟩) =>
          .ok (.call (some t.span) (functionName t) xs,
            ⟨rest', by simp only [List.length_cons]; omega⟩)
    else if t.kind = .group ∧ t.role = .opening then
      match readBinary r 0 rest with
      | .error e => .error e
      | .ok (x, ⟨rest', h⟩) =>
        match rest' with
        | [] => .error (.unclosedGroup none)
        | c :: rest'' =>
          if c.kind = .group ∧ c.role = .closing then
            .ok (x, ⟨rest'', by simp only [List.length_cons] at h ⊢; omega⟩)
          else .error (.unclosedGroup (some c.span.start))
    else .error (.unexpectedToken t.text t.span.start)
termination_by 7 * ts.length + 1

/-- Reads one argument or more, up to and including the parenthesis that closes the call. -/
def readArguments (r : Reading) (ts : List Token) : ReadFrom (List Expr) ts :=
  if atSeparator ts || atCallEnd ts then afterArgument r omitted ts ts (Nat.le_refl _)
  else
    match readBinary r 0 ts with
    | .error e => .error e
    | .ok (x, ⟨rest, h⟩) => afterArgument r x ts rest (Nat.le_of_lt h)
termination_by 7 * ts.length + 6

/-- Goes on behind an argument: with the next one, or with the end of the call. -/
def afterArgument (r : Reading) (x : Expr) (ts rest : List Token) (h : rest.length ≤ ts.length) :
    ReadFrom (List Expr) ts :=
  match rest with
  | [] => .error (.unclosedCall r.locale.separator none)
  | t :: rest' =>
    if atSeparator (t :: rest') then
      match readArguments r rest' with
      | .error e => .error e
      | .ok (xs, ⟨rest'', h'⟩) => .ok (x :: xs, ⟨rest'', by simp only [List.length_cons] at h; omega⟩)
    else if atCallEnd (t :: rest') then
      .ok ([x], ⟨rest', by simp only [List.length_cons] at h; omega⟩)
    else .error (.unclosedCall r.locale.separator (some t.span.start))
termination_by 7 * rest.length + 5

end

/-- The tree of a list of tokens; blanks among them do not matter. -/
def ofTokens (locale : Locale) (tokens : List Token) : Except ParseError Expr :=
  let ts := tokens.filter fun t => t.kind != .blank
  match ts with
  | [] => .error .emptyFormula
  | t :: _ =>
    if t.kind = .literal then .ok (.literal (some t.span) (.text t.text))
    else
      match readBinary ⟨locale, ts.getLast?.map fun t => t.span.stop⟩ 0 ts with
      | .error e => .error e
      | .ok (x, ⟨[], _⟩) => .ok x
      | .ok (_, ⟨t :: _, _⟩) => .error (.unexpectedToken t.text t.span.start)

/-- The tree of a text. -/
def parse (locale : Locale) (text : String) : Except ParseError Expr :=
  match tokenize locale text with
  | .error e => .error (.lexical e)
  | .ok tokens => ofTokens locale tokens

end Expr

end Spreadsheet
