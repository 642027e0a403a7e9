import Spreadsheet.Grid.Address
import Spreadsheet.Text.Ascii
import Spreadsheet.Text.Letter

/-!
# References

A formula refers to a cell, to a range between two cells, or to an area by name.

* A cell or range may be qualified by a sheet, `Sheet2!A1:B2`. A sheet name that is not plain is written
  in single quotes, and a quote inside it twice.
* A text in single quotes with nothing after it, and a word that is neither an address nor a truth
  value, is the name of an area.
* The second corner of a range may repeat the qualifier of the first, in either case of its ASCII
  letters, but name no other sheet.

`Reference.parse` reads this grammar and `Reference.text` writes it.
-/

namespace Spreadsheet

open Grid

/-- What a formula refers to. -/
inductive Reference where
  | cell (sheet : Option String) (address : Address)
  | range (sheet : Option String) (first last : Address)
  | name (name : String)
  deriving DecidableEq, Repr

/-- The only complaint about the text of a reference, with the part that is at fault. -/
inductive ReferenceError where
  | invalid (text : String)
  deriving DecidableEq, Repr

/-- The message of a reference error. -/
def ReferenceError.message : ReferenceError → String
  | .invalid text => "invalid reference: " ++ text

/-! ### Names and quotes -/

/-- ASCII letters followed by digits, as in `A0`, whether or not the grid has such a cell. -/
def hasCellShape (cs : List Char) : Bool :=
  let digits := cs.dropWhile Char.isAlpha
  digits.length < cs.length && !digits.isEmpty && digits.all Char.isDigit

/-- A character that may stand in a plain name. -/
def isNameChar (c : Char) : Bool :=
  Text.isLetterOrNumeral c || c == '_' || c == '.'

/-- Whether a text can be used as a name without quotes: it starts with a letter or an underscore,
goes on with letters, digits, underscores and points, and reads neither as a truth value nor as an
address. -/
def isPlainName (s : String) : Bool :=
  match s.toList with
  | [] => false
  | c :: cs =>
    (Text.isLetter c || c == '_') && cs.all isNameChar && !Text.sameAscii s "TRUE" &&
      !Text.sameAscii s "FALSE" && !hasCellShape (c :: cs)

/-- Writes every single quote twice. -/
def doubleQuotes (cs : List Char) : List Char :=
  cs.flatMap fun c => if c = '\'' then ['\'', '\''] else [c]

/-- A name in single quotes. -/
def quoted (s : String) : String :=
  String.ofList ('\'' :: doubleQuotes s.toList ++ ['\''])

/-- Whether a sheet name can be written without quotes. -/
def isPlainSheetName (s : String) : Bool :=
  match s.toList with
  | [] => false
  | c :: cs => !c.isDigit && (c :: cs).all isNameChar

/-- A sheet name as a qualifier, in quotes where it needs them. -/
def sheetQualifier (s : String) : String :=
  if isPlainSheetName s then s else quoted s

/-- Reads what follows an opening quote: the name, with doubled quotes made single, and the rest after
the closing quote. -/
def readQuoted : List Char → Option (List Char × List Char)
  | [] => none
  | '\'' :: '\'' :: cs => (readQuoted cs).map fun (name, rest) => ('\'' :: name, rest)
  | '\'' :: cs => some ([], cs)
  | c :: cs => (readQuoted cs).map fun (name, rest) => (c :: name, rest)

/-- What stands in front of the address in the text of a reference. -/
inductive Qualified where
  /-- A text in quotes and nothing else. -/
  | quotedName (name : String)
  | address (sheet : Option String) (rest : List Char)

/-- Splits the qualifier off the text of a reference. -/
def splitQualifier (cs : List Char) : Except ReferenceError Qualified :=
  let invalid : Except ReferenceError Qualified := .error (.invalid (String.ofList cs))
  match cs with
  | '\'' :: inner =>
    match readQuoted inner with
    | none => invalid
    | some (name, []) => .ok (.quotedName (String.ofList name))
    | some (name, c :: rest) =>
      if c = '!' ∧ name ≠ [] then .ok (.address (some (String.ofList name)) rest) else invalid
  | _ =>
    let sheet := cs.takeWhile (· ≠ '!')
    match cs.dropWhile (· ≠ '!') with
    | [] => .ok (.address none cs)
    | _ :: rest =>
      if sheet ≠ [] then .ok (.address (some (String.ofList sheet)) rest) else invalid

namespace Reference

/-- Whether the qualifier of the second corner of a range agrees with that of the first. -/
def qualifierAgrees (first : Option String) : Option String → Bool
  | none => true
  | some t => match first with
    | some s => Text.sameAscii s t
    | none => false

/-- Reads the text of a reference. -/
def parse (text : String) : Except ReferenceError Reference :=
  let invalid : Except ReferenceError Reference := .error (.invalid text)
  match splitQualifier text.toList with
  | .error e => .error e
  | .ok (.quotedName inner) => if inner ≠ "" then .ok (.name inner) else invalid
  | .ok (.address sheet rest) =>
    let left := String.ofList (rest.takeWhile (· ≠ ':'))
    match rest.dropWhile (· ≠ ':') with
    | _ :: second =>
      match splitQualifier second with
      | .error e => .error e
      | .ok (.quotedName _) => invalid
      | .ok (.address other right) =>
        if qualifierAgrees sheet other then
          match Address.parse left, Address.parse (String.ofList right) with
          | .ok a, .ok b => .ok (.range sheet a b)
          | _, _ => invalid
        else invalid
    | [] =>
      match Address.parse left with
      | .ok a => .ok (.cell sheet a)
      | .error _ => if sheet = none ∧ isPlainName left then .ok (.name left) else invalid

/-- The sheet that qualifies a reference. -/
def sheet? : Reference → Option String
  | .cell sheet _ | .range sheet _ _ => sheet
  | .name _ => none

/-- The same reference with another qualifier; a name has none. -/
def withSheet (sheet : Option String) : Reference → Reference
  | .cell _ a => .cell sheet a
  | .range _ a b => .range sheet a b
  | .name n => .name n

/-- Whether a reference gives its cells by position. -/
def isPositional : Reference → Bool
  | .name _ => false
  | _ => true

/-- A qualifier with its mark, or nothing. -/
def qualifierText : Option String → String
  | some sheet => sheetQualifier sheet ++ "!"
  | none => ""

/-- The text of a reference. -/
def text : Reference → String
  | .cell sheet a => qualifierText sheet ++ a.text
  | .range sheet a b => qualifierText sheet ++ a.text ++ ":" ++ b.text
  | .name n => if isPlainName n then n else quoted n

end Reference

end Spreadsheet
