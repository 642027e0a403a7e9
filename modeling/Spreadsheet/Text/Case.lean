import Spreadsheet.Text.CaseTable

/-!
# Upper and lower case of all scripts

Sheet names and names of areas are compared by their lower case, and two functions change the case of a
text. Both use the full unconditional mappings, in which one character may become several: the upper
case of `ß` is `SS`. The one context rule is the Greek one: a capital sigma at the end of a word has
the lower case `ς`, and `σ` elsewhere. A word ends where, characters that case ignores aside, a cased
character stands before and none stands after.
-/

namespace Spreadsheet.Text

/-- The characters that a table of lists and a table of runs give for one character. -/
def mapCase (lists : List (Nat × List Nat)) (runs : List CodeRun) (c : Char) : List Char :=
  match lists.find? fun entry => entry.1 == c.toNat with
  | some entry => entry.2.map Char.ofNat
  | none => [Char.ofNat (CodeRun.apply runs c.toNat)]

/-- The lower case of one character on its own. -/
def lowerChar (c : Char) : List Char :=
  if c.toNat < 128 then [c.toLower] else mapCase lowerLists lowerRuns c

/-- The upper case of one character. -/
def upperChar (c : Char) : List Char :=
  if c.toNat < 128 then [c.toUpper] else mapCase upperLists upperRuns c

/-- A character with the property Cased. -/
def isCased (c : Char) : Bool :=
  if c.toNat < 128 then c.isAlpha else CodeRange.covers casedRanges c.toNat

/-- A character with the property Case_Ignorable. -/
def isCaseIgnorable (c : Char) : Bool :=
  if c.toNat < 128 then
    c == '\'' || c == '.' || c == ':' || c == '^' || c == Char.ofNat 0x60
  else CodeRange.covers caseIgnorableRanges c.toNat

/-- Whether the first character that case does not ignore is cased. -/
def startsCased (cs : List Char) : Bool :=
  match cs.dropWhile isCaseIgnorable with
  | c :: _ => isCased c
  | [] => false

/-- Lower-cases `cs`, where `before` holds the characters to the left, nearest first. -/
def lowerFrom : (before cs : List Char) → List Char
  | _, [] => []
  | before, c :: cs =>
    let mapped :=
      if c = 'Σ' then (if startsCased before && !startsCased cs then ['ς'] else ['σ'])
      else lowerChar c
    mapped ++ lowerFrom (c :: before) cs

/-- The lower case of a text. -/
def lower (s : String) : String :=
  String.ofList (lowerFrom [] s.toList)

/-- The upper case of a text. -/
def upper (s : String) : String :=
  String.ofList (s.toList.flatMap upperChar)

/-- Two names that are the same when case is ignored. -/
def sameName (s t : String) : Bool :=
  lower s == lower t

theorem sameName_refl (s : String) : sameName s s = true := by simp [sameName]

theorem sameName_symm {s t : String} (h : sameName s t = true) : sameName t s = true := by
  simp_all [sameName]

theorem sameName_trans {s t u : String} (h : sameName s t = true) (k : sameName t u = true) :
    sameName s u = true := by
  simp_all [sameName]

end Spreadsheet.Text
