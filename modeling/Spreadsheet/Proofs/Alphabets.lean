import Spreadsheet.Formula.Reference

/-!
# Alphabets: writing and reading references with any letters

Which characters count as letters and digits is agreed on for ASCII characters, and nobody needs to agree on the
others. An `Alphabet` says it for all of them. References are written and read with any alphabet, and `unicode` is
the one that the library has: with it, `text` and `parse` are those of references (`text_unicode`,
`parse_unicode`).

All that is used of an alphabet is that a name which needs no quotes consists of bare characters: ASCII letters,
digits, underscores and points, and characters beyond ASCII (`isBare_of_isNameChar`).
-/

namespace Spreadsheet

open Grid

/-- Which characters are letters, and which are letters or digits. On ASCII characters it is what it always is. -/
structure Alphabet where
  isLetter : Char → Bool
  isLetterOrNumeral : Char → Bool
  isLetter_of_ascii : ∀ c : Char, c.toNat < 128 → isLetter c = c.isAlpha
  isLetterOrNumeral_of_ascii : ∀ c : Char, c.toNat < 128 → isLetterOrNumeral c = c.isAlphanum

namespace Alphabet

/-- The letters and digits of all scripts. -/
def unicode : Alphabet where
  isLetter := Text.isLetter
  isLetterOrNumeral := Text.isLetterOrNumeral
  isLetter_of_ascii _ := Text.isLetter_of_ascii
  isLetterOrNumeral_of_ascii _ := Text.isLetterOrNumeral_of_ascii

variable (A : Alphabet)

/-- A character that may stand in a plain name. -/
def isNameChar (c : Char) : Bool := A.isLetterOrNumeral c || c == '_' || c == '.'

/-- Whether a text can be used as a name without quotes. -/
def isPlainName (s : String) : Bool :=
  match s.toList with
  | [] => false
  | c :: cs =>
    (A.isLetter c || c == '_') && cs.all A.isNameChar && !Text.sameAscii s "TRUE" && !Text.sameAscii s "FALSE" &&
      !hasCellShape (c :: cs)

/-- Whether a sheet name can be written without quotes. -/
def isPlainSheetName (s : String) : Bool :=
  match s.toList with
  | [] => false
  | c :: cs => !c.isDigit && (c :: cs).all A.isNameChar

/-- A sheet name as a qualifier, in quotes where it needs them. -/
def sheetQualifier (s : String) : String := if A.isPlainSheetName s then s else quoted s

/-- A qualifier with its mark, or nothing. -/
def qualifierText : Option String → String
  | some sheet => A.sheetQualifier sheet ++ "!"
  | none => ""

/-- The text of a reference. -/
def text : Reference → String
  | .cell sheet a => A.qualifierText sheet ++ a.text
  | .range sheet a b => A.qualifierText sheet ++ a.text ++ ":" ++ b.text
  | .name n => if A.isPlainName n then n else quoted n

/-- Reads the text of a reference. -/
def parse (text : String) : Except ReferenceError Reference :=
  let invalid : Except ReferenceError Reference := .error (.invalid text)
  match splitQualifier text.toList with
  | .error e => .error e
  | .ok (.quotedName inner) => if inner ≠ "" then .ok (.name inner) else invalid
  | .ok (.address sheet rest) =>
    let left := String.ofList (rest.takeWhile (· ≠ ':'))
    match rest.dropWhile (· ≠ ':') with
    | _ :: second =>
      match splitQualifier second with
      | .error e => .error e
      | .ok (.quotedName _) => invalid
      | .ok (.address other right) =>
        if Reference.qualifierAgrees sheet other then
          match Address.parse left, Address.parse (String.ofList right) with
          | .ok a, .ok b => .ok (.range sheet a b)
          | _, _ => invalid
        else invalid
    | [] =>
      match Address.parse left with
      | .ok a => .ok (.cell sheet a)
      | .error _ => if sheet = none ∧ A.isPlainName left then .ok (.name left) else invalid

/-! ### The alphabet of all scripts -/

theorem isPlainName_unicode (s : String) : unicode.isPlainName s = Spreadsheet.isPlainName s := rfl

theorem text_unicode (r : Reference) : unicode.text r = r.text := by
  cases r with
  | cell sheet a => cases sheet <;> rfl
  | range sheet a b => cases sheet <;> rfl
  | name n => rfl

theorem parse_unicode (text : String) : unicode.parse text = Reference.parse text := rfl

end Alphabet

/-! ### Bare characters -/

/-- A character that names without quotes can have, whatever the alphabet. -/
def isBare (c : Char) : Bool := c.isAlphanum || c == '_' || c == '.' || decide (128 ≤ c.toNat)

theorem isBare_of_not_ascii {c : Char} (h : ¬c.toNat < 128) : isBare c = true := by
  unfold isBare
  rw [decide_eq_true (Nat.not_lt.mp h), Bool.or_true]

theorem isBare_of_isAlphanum {c : Char} (h : c.isAlphanum = true) : isBare c = true := by
  unfold isBare
  rw [h]
  rfl

theorem not_mem_of_isBare {cs : List Char} (h : ∀ c ∈ cs, isBare c = true) {d : Char} (hd : isBare d = false) :
    d ∉ cs := by
  intro hmem
  rw [h d hmem] at hd
  cases hd

namespace Alphabet

variable {A : Alphabet}

theorem isBare_of_isNameChar {c : Char} (h : A.isNameChar c = true) : isBare c = true := by
  by_cases hascii : c.toNat < 128
  · unfold isNameChar at h
    rw [A.isLetterOrNumeral_of_ascii c hascii] at h
    unfold isBare
    rw [h]
    rfl
  · exact isBare_of_not_ascii hascii

theorem isBare_of_isLetter {c : Char} (h : A.isLetter c = true) : isBare c = true := by
  by_cases hascii : c.toNat < 128
  · rw [A.isLetter_of_ascii c hascii] at h
    refine isBare_of_isAlphanum ?_
    unfold Char.isAlphanum
    rw [h]
    rfl
  · exact isBare_of_not_ascii hascii

theorem isBare_of_isPlainSheetName {s : String} (h : A.isPlainSheetName s = true) :
    ∀ c ∈ s.toList, isBare c = true := by
  unfold isPlainSheetName at h
  split at h
  · cases h
  · next c cs hcs =>
    rw [Bool.and_eq_true] at h
    rw [hcs]
    exact fun d hd => isBare_of_isNameChar (List.all_eq_true.mp h.2 d hd)

end Alphabet

end Spreadsheet
