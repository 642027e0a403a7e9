import Spreadsheet.Formula.Token.Basic
import Spreadsheet.Locale
import Spreadsheet.Text.Bytes
import Spreadsheet.Value.ErrorValue

/-!
# Splitting a formula into tokens

The lexer walks over the characters after the equals sign and gathers an operand until a character ends
it: a blank, an operator, a parenthesis or the argument separator of the locale. Four rules look at
more than one character.

* Double quotes delimit a text and single quotes a name; in both a doubled quote stands for one. A name
  stays part of the operand around it, and an operand that ends in a colon is not cut off by a quote.
* A sign after the mantissa and `e` of a number belongs to the number.
* An error code may follow a qualifier that ends in `!`, and then is one operand with it.
* `+` and `-` join two operands if the last token that is not blank ends an operand, and are prefix
  signs otherwise.

One step takes the current character and says how many of the following ones it took as well, so the
walk ends with the text.
-/

namespace Spreadsheet

/-- Why a text is no sequence of tokens. Positions are byte offsets. -/
inductive LexError where
  | separatorNotAscii (separator : Char)
  | arrayConstant (position : Nat)
  | structuredReference (position : Nat)
  | unclosedParenthesis (position : Nat)
  | unclosedQuote (position : Nat)
  | unknownErrorCode (position : Nat)
  | unopenedParenthesis (position : Nat)
  | separatorOutsideCall (separator : Char) (position : Nat)
  deriving DecidableEq, Repr

namespace LexError

/-- The message of a lexical error. -/
def message : LexError → String
  | separatorNotAscii c => "argument separator '" ++ c.toString ++ "' must be ASCII"
  | arrayConstant _ => "array constants are not supported"
  | structuredReference _ => "structured references are not supported"
  | unclosedParenthesis _ => "Unmatched opening parenthesis"
  | unclosedQuote _ => "Reached end of formula while parsing string"
  | unknownErrorCode p => "Invalid error code at position " ++ toString p
  | unopenedParenthesis p => "No matching opener for closer at position " ++ toString p
  | separatorOutsideCall c _ =>
    "argument separator '" ++ c.toString ++ "' outside of a function call"

/-- Where a lexical error was found. -/
def position : LexError → Nat
  | separatorNotAscii _ => 0
  | arrayConstant p | structuredReference p | unclosedParenthesis p | unclosedQuote p
  | unknownErrorCode p | unopenedParenthesis p | separatorOutsideCall _ p => p

/-- A lexical error with the word for its kind. -/
def display (e : LexError) : String := "TokenizerError: " ++ e.message

end LexError

namespace Lexer

/-- Blanks between tokens. -/
def isSpace (c : Char) : Bool := c == ' ' || c == '\n' || c == '\t' || c == '\r'

/-- Characters that are operators or begin one. -/
def isSign (c : Char) : Bool :=
  c == '+' || c == '-' || c == '*' || c == '/' || c == '^' || c == '&' || c == '=' || c == '>' ||
    c == '<' || c == '%'

/-- Characters that end an operand. -/
def endsOperand (separator c : Char) : Bool :=
  isSpace c || isSign c || c == ')' || c == '}' || c == separator

/-- The role of an operand, seen from its text. -/
def operandRole (locale : Locale) (cs : List Char) : TokenRole :=
  match cs with
  | [] => .range
  | c :: _ =>
    let s := String.ofList cs
    if c = '"' then .text
    else if c = '#' then .error
    else if Text.sameAscii s "TRUE" || Text.sameAscii s "FALSE" then .logical
    else if c.isDigit && (locale.readNumber s).isSome then .number
    else .range

/-- Digits with at most one decimal mark, which must be ASCII. -/
def isMantissa (mark : Char) : (seen : Bool) → List Char → Bool
  | _, [] => true
  | seen, c :: cs =>
    if c.isDigit then isMantissa mark seen cs
    else !seen && mark.toNat < 128 && c == mark && isMantissa mark true cs

/-- Whether an operand is the mantissa of a number with its exponent letter, so that a sign may follow. -/
def awaitsExponent (mark : Char) : List Char → Bool
  | c :: d :: cs =>
    let last := (d :: cs).getLast (by simp)
    c.isDigit && (last == 'E' || last == 'e') && isMantissa mark false (d :: cs).dropLast
  | _ => false

/-- How many characters there are up to the quote that closes a text, that quote included. -/
def quotedLength (quote : Char) : List Char → Option Nat
  | [] => none
  | [c] => if c = quote then some 1 else none
  | c :: d :: cs =>
    if c = quote then
      if d = quote then (quotedLength quote cs).map (· + 2) else some 1
    else (quotedLength quote (d :: cs)).map (· + 1)

/-- The length of the error code at the start of a text; the first kind that matches counts. -/
def errorCodeLength (cs : List Char) : Option Nat :=
  ErrorKind.all.findSome? fun kind =>
    (Text.splitAsciiStart kind.code.toList cs).map fun split => split.1.length

/-- Where the lexer stands: the byte offset, the operand gathered so far (last character first) and
its start, the parentheses that are open (innermost first), and the tokens (last one first). -/
structure State where
  offset : Nat := 1
  start : Nat := 1
  operand : List Char := []
  openers : List TokenKind := []
  tokens : List Token := []

namespace State

/-- Puts a token of the given characters, which start at the offset, behind the others. -/
def push (s : State) (kind : TokenKind) (role : TokenRole) (cs : List Char) : State :=
  let stop := s.offset + Text.byteLength cs
  { s with
    offset := stop
    start := stop
    operand := []
    tokens := ⟨String.ofList cs, kind, role, ⟨s.offset, stop⟩⟩ :: s.tokens }

/-- Puts a token made of the operand and further characters behind the others. -/
def pushWithOperand (s : State) (kind : TokenKind) (role : TokenRole) (cs : List Char) : State :=
  if s.operand = [] then s.push kind role cs
  else
    let stop := s.offset + Text.byteLength cs
    { s with
      offset := stop
      start := stop
      operand := []
      tokens := ⟨String.ofList (s.operand.reverse ++ cs), kind, role, ⟨s.start, stop⟩⟩ :: s.tokens }

/-- Ends the operand, if there is one. -/
def flush (s : State) (locale : Locale) : State :=
  if s.operand = [] then s
  else s.pushWithOperand .operand (operandRole locale s.operand.reverse) []

/-- Adds characters to the operand. -/
def extend (s : State) (cs : List Char) : State :=
  { s with
    offset := s.offset + Text.byteLength cs
    start := if s.operand = [] then s.offset else s.start
    operand := cs.reverse ++ s.operand }

/-- Ends the operand unless its last character is the given one. -/
def flushUnlessLast (s : State) (locale : Locale) (c : Char) : State :=
  if s.operand.head? = some c then s else s.flush locale

/-- Whether a sign would join two operands here. -/
def afterOperand (s : State) : Bool :=
  match s.tokens.find? fun t => t.kind != .blank with
  | some t => t.endsOperand
  | none => false

end State

/-- Takes a quoted text or name; `c` is the opening quote. -/
def stepQuote (locale : Locale) (s : State) (c : Char) (cs : List Char) :
    Except LexError (State × Nat) :=
  let s := s.flushUnlessLast locale ':'
  match quotedLength c cs with
  | none => .error (.unclosedQuote (s.offset + Text.byteLength (c :: cs)))
  | some n =>
    let taken := c :: cs.take n
    if c = '"' then .ok (s.push .operand (operandRole locale taken) taken, n)
    else .ok (s.extend taken, n)

/-- Takes an error code. -/
def stepErrorCode (locale : Locale) (s : State) (c : Char) (cs : List Char) :
    Except LexError (State × Nat) :=
  let s := s.flushUnlessLast locale '!'
  match errorCodeLength (c :: cs) with
  | none => .error (.unknownErrorCode s.offset)
  | some n => .ok (s.pushWithOperand .operand .error ((c :: cs).take n), n - 1)

/-- Takes an operator of one or two characters. -/
def stepSign (locale : Locale) (s : State) (c : Char) (cs : List Char) : State × Nat :=
  let s := s.flush locale
  match cs with
  | d :: _ =>
    if (c = '>' ∧ d = '=') ∨ (c = '<' ∧ d = '=') ∨ (c = '<' ∧ d = '>') then
      (s.push .infixSign .plain [c, d], 1)
    else (s.push (signKind s c) .plain [c], 0)
  | [] => (s.push (signKind s c) .plain [c], 0)
where
  /-- The kind of an operator of one character. -/
  signKind (s : State) (c : Char) : TokenKind :=
    if c = '%' then .postfixSign
    else if (c = '+' ∨ c = '-') ∧ !s.afterOperand then .prefixSign
    else .infixSign

/-- Takes one character and some of those after it; the answer says how many. -/
def step (locale : Locale) (s : State) (c : Char) (cs : List Char) : Except LexError (State × Nat) :=
  if (c = '+' ∨ c = '-') ∧ awaitsExponent locale.decimal s.operand.reverse then
    .ok (s.extend [c], 0)
  else
    let s := if endsOperand locale.separator c then s.flush locale else s
    if c = '"' ∨ c = '\'' then stepQuote locale s c cs
    else if c = '#' then stepErrorCode locale s c cs
    else if isSpace c then
      let run := cs.takeWhile isSpace
      .ok (s.push .blank .plain (c :: run), run.length)
    else if isSign c then .ok (stepSign locale s c cs)
    else if c = '(' then
      let kind : TokenKind := if s.operand = [] then .group else .call
      let pushed := s.pushWithOperand kind .opening [c]
      .ok ({ pushed with openers := kind :: s.openers }, 0)
    else if c = ')' then
      match s.openers with
      | [] => .error (.unopenedParenthesis s.offset)
      | kind :: outer => .ok ({ s.push kind .closing [c] with openers := outer }, 0)
    else if c = locale.separator then
      if s.openers.head? = some .call then .ok (s.push .separator .argument [c], 0)
      else .error (.separatorOutsideCall c s.offset)
    else if c = '{' ∨ c = '}' then .error (.arrayConstant s.offset)
    else if c = '[' ∨ c = ']' then .error (.structuredReference s.offset)
    else .ok (s.extend [c], 0)

/-- Walks to the end of the text. -/
def run (locale : Locale) (s : State) : List Char → Except LexError State
  | [] =>
    let s := s.flush locale
    if s.openers = [] then .ok s else .error (.unclosedParenthesis s.offset)
  | c :: cs =>
    match step locale s c cs with
    | .error e => .error e
    | .ok (next, n) => run locale next (cs.drop n)
termination_by cs => cs.length
decreasing_by simp only [List.length_drop, List.length_cons]; omega

end Lexer

/-- The tokens of a text. -/
def tokenize (locale : Locale) (text : String) : Except LexError (List Token) :=
  if 128 ≤ locale.separator.toNat then .error (.separatorNotAscii locale.separator)
  else
    match text.toList with
    | [] => .ok []
    | c :: cs =>
      if c = '=' then (Lexer.run locale {} cs).map fun s => s.tokens.reverse
      else .ok [⟨text, .literal, .plain, ⟨0, Text.byteLength (c :: cs)⟩⟩]

end Spreadsheet
