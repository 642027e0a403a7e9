import Spreadsheet.Proofs.Handles
import Spreadsheet.Proofs.Spelling
import Spreadsheet.Workbook.NamedArea

/-!
# Rereading: a formula that is the text of a reference

A reference is written behind an equals sign, and the formula is read again. It has one token, an operand that
takes up the whole text, and the token is read as the reference (`rereads`). That is so with every alphabet, and for
every reference with names that are not empty and with lines that can be counted; so every sheet that can be
added and every area that can be defined can be written into a formula.
-/

namespace Spreadsheet

open Grid

namespace Alphabet

/-- The token of a formula that is the text of a reference. -/
def token (A : Alphabet) (r : Reference) : Token :=
  ⟨A.text r, .operand, .range, ⟨1, 1 + Text.byteLength (A.text r).toList⟩⟩

/-- A formula that is the text of a reference has one token, and it is read as this reference. -/
structure Rereads (A : Alphabet) (l : Locale) (r : Reference) : Prop where
  tokens : tokenize l ("=" ++ A.text r) = .ok [A.token r]
  read : A.parse (A.token r).text = .ok r

variable {A : Alphabet} {l : Locale} {r : Reference}

/-- **A reference is read again from a formula.** -/
theorem rereads_of_isWritable (hl : l.IsBuiltIn) (h : r.IsWritable) : A.Rereads l r := by
  have hplain := hl.hasPlainSeparator
  have hfits : Lexer.Fits l {} ⟨[], (A.text r).toList, .operand, .range⟩ [] :=
    fits_text hplain h {} fun c hc => absurd hc (by simp)
  have htext : "=" ++ A.text r = String.ofList ('=' :: (A.text r).toList) := String.toList_inj.mp (by simp)
  refine ⟨?_, parse_text h⟩
  rw [htext, tokenize_eq_ok_iff hplain]
  refine ⟨[⟨[], (A.text r).toList, .operand, .range⟩], ?_, .cons hfits .nil, rfl, ?_⟩
  · exact List.flatMap_singleton _ _
  · unfold token Word.tokens Word.token Word.tokens
    rw [String.ofList_toList]
    rfl

theorem ne_empty_of_isPlainName {n : String} (h : A.isPlainName n = true) : n ≠ "" := by
  rintro rfl
  cases h

end Alphabet

theorem ne_empty_of_isSheetName {s : String} (h : isSheetName s = true) : s ≠ "" := by
  rintro rfl
  revert h
  decide

/-- **References are read again from formulas, with every alphabet**: those to cells and ranges whose lines can be
counted, on no named sheet or on one whose name is not empty, and names that are not empty. In particular so are
references to every sheet that can be added, and every name that can be defined. -/
theorem Alphabet.rereads (A : Alphabet) (l : Locale) (hl : l.IsBuiltIn) :
    (∀ r : Reference, r.IsWritable → A.Rereads l r) ∧
      (∀ s, checkSheetName s = .ok () → ∀ a b : Address, a.isWithin lastLine lastLine = true →
        b.isWithin lastLine lastLine = true →
          A.Rereads l (.cell (some s) a) ∧ A.Rereads l (.range (some s) a b)) ∧
      (∀ n, A.isPlainName n = true → A.text (.name n) = n ∧ A.Rereads l (.name n)) ∧
      ∀ (names names' : NamedAreas) (n : String) (sheet : SheetId) (rect : Rect),
        names.define n sheet rect = .ok names' → Alphabet.unicode.Rereads l (.name n) := by
  refine ⟨fun r => rereads_of_isWritable hl, fun s hs a b ha hb => ?_, fun n hn => ?_,
    fun names names' n sheet rect hdefine => ?_⟩
  · have hne : some s ≠ some "" := fun h =>
      ne_empty_of_isSheetName (Workbook.checkSheetName_eq_ok.mp hs) (Option.some.inj h)
    exact ⟨rereads_of_isWritable hl ⟨hne, ha⟩, rereads_of_isWritable hl ⟨hne, ha, hb⟩⟩
  · exact ⟨if_pos hn, rereads_of_isWritable hl (ne_empty_of_isPlainName hn)⟩
  · unfold NamedAreas.define at hdefine
    split at hdefine
    · next hplain =>
      rw [← isPlainName_unicode] at hplain
      exact rereads_of_isWritable hl (ne_empty_of_isPlainName hplain)
    · cases hdefine

/-- An alphabet with all characters beyond ASCII for letters, none of which is a letter or a digit. -/
def Alphabet.contrary : Alphabet where
  isLetter c := if c.toNat < 128 then c.isAlpha else true
  isLetterOrNumeral := Char.isAlphanum
  isLetter_of_ascii _ h := if_pos h
  isLetterOrNumeral_of_ascii _ _ := rfl

/-- `='it''s #1!'!$A1:B$2`, `='TRUE'` and `='été'!C3` in formulas with commas in numbers. The last sheet begins with a
letter, and takes quotes because that is neither a letter nor a digit. -/
theorem Alphabet.rereads_contrary :
    let area : Reference := .range (some "it's #1!") ⟨1, 1, true, false⟩ ⟨2, 2, false, true⟩
    let cell : Reference := .cell (some "été") (.plain 3 3)
    Locale.IsBuiltIn .commaDecimal ∧ area.IsWritable ∧ cell.IsWritable ∧
      contrary.text area = "'it''s #1!'!$A1:B$2" ∧ contrary.text (.name "TRUE") = "'TRUE'" ∧
      contrary.text cell = "'été'!C3" ∧ contrary.Rereads .commaDecimal area ∧
      contrary.Rereads .commaDecimal (.name "TRUE") ∧ contrary.Rereads .commaDecimal cell := by
  intro area cell
  have hlocale : Locale.IsBuiltIn .commaDecimal := Or.inr rfl
  have harea : area.IsWritable := ⟨by decide, by decide, by decide⟩
  have hcell : cell.IsWritable := ⟨by decide, by decide⟩
  have hname : ("TRUE" : String) ≠ "" := by decide
  obtain ⟨hall, -⟩ := contrary.rereads .commaDecimal hlocale
  exact ⟨hlocale, harea, hcell, by decide +kernel, by decide +kernel, by decide +kernel, hall area harea,
    hall (.name "TRUE") hname, hall cell hcell⟩

end Spreadsheet
