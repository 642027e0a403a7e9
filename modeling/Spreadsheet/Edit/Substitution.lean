import Spreadsheet.Edit.LineEdit
import Spreadsheet.Formula.Reference
import Spreadsheet.Formula.Token.Lexer
import Spreadsheet.Text.Bytes

/-!
# Replacing references in a text

An edit of the grid changes references inside the texts of formulas and leaves everything else as it
was typed. The tokens of a formula tell where its references stand; each one that changes is replaced
in place, so whatever stands between two replacements is kept byte for byte. Names are no subject of
such an edit, nor is a text that is no formula.
-/

namespace Spreadsheet

/-- A piece of text to put in place of a span. -/
structure Replacement where
  span : Span
  text : String

/-- Makes replacements in a text whose first character stands at the byte `offset`. The replacements
are given in order and do not overlap. -/
def splice (offset : Nat) : List Replacement → List Char → List Char
  | [], cs => cs
  | r :: rs, cs =>
    Text.takeBytes (r.span.start - offset) cs ++ r.text.toList ++
      splice r.span.stop rs (Text.dropBytes (r.span.stop - offset) cs)

/-- The reference by position that a token is, if it is one. -/
def Token.positional? (t : Token) : Option Reference :=
  if t.kind = .operand ∧ t.role = .range then
    match Reference.parse t.text with
    | .ok r => if r.isPositional then some r else none
    | .error _ => none
  else none

/-- The replacements that an edit of references makes among tokens. -/
def replacements (edit : Reference → Option String) (ts : List Token) : List Replacement :=
  ts.filterMap fun t =>
    match t.positional? with
    | some r => (edit r).map fun text => ⟨t.span, text⟩
    | none => none

/-- Edits the references in the text of a formula. The result is `none` when no reference changes. -/
def editReferences (locale : Locale) (text : String) (edit : Reference → Option String) :
    Except LexError (Option String) :=
  match tokenize locale text with
  | .error e => .error e
  | .ok ts =>
    match replacements edit ts with
    | [] => .ok none
    | rs => .ok (some (String.ofList (splice 0 rs text.toList)))

/-- What stands in a formula for a reference whose cells are gone. -/
def lostReference : String := ErrorKind.invalidReference.code

/-- The new text of a reference after an edit of lines on the sheet it refers to; `none` when the
reference stays as it is. -/
def LineEdit.newText? (e : LineEdit) (limit : Nat) (r : Reference) : Option String :=
  let image : Option Reference := match r with
    | .cell sheet a => (e.addressImage? limit a).map (.cell sheet)
    | .range sheet a b => (e.rangeImage? limit a b).map fun (a, b) => .range sheet a b
    | .name n => some (.name n)
  match image with
  | none => some lostReference
  | some new => if new = r then none else some new.text

end Spreadsheet
