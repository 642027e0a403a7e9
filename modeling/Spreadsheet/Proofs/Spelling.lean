import Spreadsheet.Proofs.Alphabets
import Spreadsheet.Proofs.Lexing

/-!
# Spelling: the text of a reference is read back

A reference is written with capitals, with quotes where a name needs them, and with every quote inside a
name twice. Whatever can stand in a formula comes back from its text.

* `Grid.Address.parse_text` — an address is read back, markers included.
* `Alphabet.parse_text` — so is a reference whose names are not empty and whose lines have numbers, and
  `isWritable_of_parse` says that every reference that was read is of this kind.
* `Alphabet.fits_text` — in a formula the text is a single operand, wherever it stands and whatever ends
  it.

Both are true with any alphabet, and `Reference.parse_text` and `Reference.fits_text` are the case of the one that
the library has.
-/

namespace Spreadsheet

namespace Grid

/-! ### Columns and rows -/

theorem letterOf_spec : ∀ n < 26, (letterOf n).isAlpha = true ∧ letterValue (letterOf n) = n + 1 := by
  decide

theorem readLetters_append (column : Nat) (a b : List Char) :
    readLetters column (a ++ b) = (readLetters column a).bind fun next => readLetters next b := by
  induction a generalizing column with
  | nil => rfl
  | cons c a ih =>
    simp only [List.cons_append, readLetters]
    split
    · split
      · exact ih _
      · rfl
    · rfl

theorem letterList_eq {column : Nat} (h : column ≠ 0) :
    letterList column = letterList ((column - 1) / 26) ++ [letterOf ((column - 1) % 26)] := by
  rw [letterList, dif_neg h]

theorem letterList_ne_nil {column : Nat} (h : column ≠ 0) : letterList column ≠ [] := by
  rw [letterList_eq h]
  exact List.append_ne_nil_of_right_ne_nil _ (List.cons_ne_nil _ _)

theorem isAlpha_of_mem_letterList {column : Nat} {c : Char} (hc : c ∈ letterList column) :
    c.isAlpha = true := by
  induction column using Nat.strongRecOn with
  | ind column ih =>
    by_cases hzero : column = 0
    · rw [hzero, letterList, dif_pos rfl] at hc
      cases hc
    · rw [letterList_eq hzero, List.mem_append, List.mem_singleton] at hc
      rcases hc with hc | rfl
      · exact ih _ (by omega) hc
      · exact (letterOf_spec _ (Nat.mod_lt _ (by decide))).1

/-- A column is read back from its letters. -/
theorem readLetters_letterList {column : Nat} (h : column ≤ lastLine) :
    readLetters 0 (letterList column) = some column := by
  induction column using Nat.strongRecOn with
  | ind column ih =>
    by_cases hzero : column = 0
    · rw [hzero, letterList, dif_pos rfl]
      rfl
    · obtain ⟨halpha, hvalue⟩ := letterOf_spec ((column - 1) % 26) (Nat.mod_lt _ (by decide))
      have hnext : 26 * ((column - 1) / 26) + ((column - 1) % 26 + 1) = column := by omega
      rw [letterList_eq hzero, readLetters_append, ih _ (by omega) (by omega), Option.bind_some]
      simp only [readLetters, halpha, if_true, hvalue, hnext, h]

/-- A row is read back from its digits. -/
theorem rowOfDigits?_toDigits {row : Nat} (h : 1 ≤ row ∧ row ≤ lastLine) :
    Address.rowOfDigits? (Nat.toDigits 10 row) = some row := by
  have hvalue : (Nat.toDigits 10 row).foldl (fun n d => 10 * n + (d.toNat - '0'.toNat)) 0 = row := by
    rw [← Nat.ofDigitChars_eq_foldl, Nat.ofDigitChars_ten_toDigits]
  unfold Address.rowOfDigits?
  dsimp only
  rw [hvalue, if_pos h]

theorem isDigit_of_mem_toDigits {n : Nat} {c : Char} (hc : c ∈ Nat.toDigits 10 n) : c.isDigit = true :=
  Nat.isDigit_of_mem_toDigits (by decide) (by decide) hc

theorem digit_bounds {c : Char} (h : c.isDigit = true) : 48 ≤ c.toNat ∧ c.toNat ≤ 57 := by
  have hbounds : (decide (c.val ≥ '0'.val) && decide (c.val ≤ '9'.val)) = true := h
  rw [Bool.and_eq_true, decide_eq_true_iff, decide_eq_true_iff] at hbounds
  exact ⟨UInt32.le_iff_toNat_le.mp hbounds.1, UInt32.le_iff_toNat_le.mp hbounds.2⟩

/-- Digits come before letters. -/
theorem isUpper_of_isDigit {c : Char} (h : c.isDigit = true) : c.isUpper = false := by
  have hupper := (digit_bounds h).2
  refine decide_eq_false fun hbounds => ?_
  have hletter : 65 ≤ c.toNat := UInt32.le_iff_toNat_le.mp hbounds.1
  omega

theorem isAlpha_of_isDigit {c : Char} (h : c.isDigit = true) : c.isAlpha = false := by
  have hupper := (digit_bounds h).2
  have hlower : c.isLower = false := by
    refine Bool.and_eq_false_iff.mpr (Or.inl (decide_eq_false fun hbound => ?_))
    have hletter : 97 ≤ c.toNat := UInt32.le_iff_toNat_le.mp hbound
    omega
  exact Bool.or_eq_false_iff.mpr ⟨isUpper_of_isDigit h, hlower⟩

/-! ### Addresses -/

namespace Address

/-- A marker, if there is one. -/
def marker (fixed : Bool) : List Char := if fixed then ['$'] else []

theorem eq_of_mem_marker {fixed : Bool} {c : Char} (h : c ∈ marker fixed) : c = '$' := by
  cases fixed with
  | true => exact List.mem_singleton.mp h
  | false => cases h

theorem chars_eq (a : Address) :
    a.chars = marker a.colFixed ++ (letterList a.col ++ (marker a.rowFixed ++ Nat.toDigits 10 a.row)) := by
  unfold chars marker
  simp only [List.append_assoc]

theorem splitMarker_marker (fixed : Bool) {cs : List Char} (h : cs.head? ≠ some '$') :
    splitMarker (marker fixed ++ cs) = (fixed, cs) := by
  cases fixed with
  | true => rfl
  | false =>
    match cs with
    | [] => rfl
    | c :: cs =>
      have hc : c ≠ '$' := fun hc => h (congrArg some hc)
      unfold marker splitMarker
      split
      · next heq => exact absurd (List.cons.inj heq).1 hc
      · rfl

theorem isWithin_lastLine_iff {a : Address} : a.isWithin lastLine lastLine = true ↔
    (1 ≤ a.col ∧ a.col ≤ lastLine) ∧ (1 ≤ a.row ∧ a.row ≤ lastLine) := by
  simp only [isWithin, Bool.and_eq_true, decide_eq_true_eq]
  omega

theorem head?_ne_marker {cs : List Char} {p : Char → Bool} (hp : p '$' = false)
    (h : ∀ c ∈ cs, p c = true) : cs.head? ≠ some '$' := by
  intro hhead
  have hmem := h '$' (List.mem_of_mem_head? hhead)
  rw [hp] at hmem
  cases hmem

/-- Letters begin with no marker. -/
theorem head?_letters_ne_marker {letters : List Char} (hne : letters ≠ []) (h : ∀ c ∈ letters, c.isAlpha = true)
    (rest : List Char) : (letters ++ rest).head? ≠ some '$' := by
  obtain ⟨c, cs, hcs⟩ := List.exists_cons_of_ne_nil hne
  have hhead := head?_ne_marker (p := Char.isAlpha) rfl h
  rw [hcs] at hhead ⊢
  exact hhead

/-- What an address was read from. -/
structure Spells (cs : List Char) (a : Address) (letters digits : List Char) : Prop where
  split : cs = marker a.colFixed ++ (letters ++ (marker a.rowFixed ++ digits))
  letters_ne : letters ≠ []
  isAlpha : ∀ c ∈ letters, c.isAlpha = true
  digits_ne : digits ≠ []
  isDigit : ∀ c ∈ digits, c.isDigit = true
  col : readLetters 0 letters = some a.col
  row : rowOfDigits? digits = some a.row

theorem parse_of_spells {s : String} {a : Address} {letters digits : List Char} (h : Spells s.toList a letters digits) :
    parse s = .ok a := by
  -- neither a marker nor a digit is a letter
  have hend : ∀ c ∈ (marker a.rowFixed ++ digits).head?, c.isAlpha = false := by
    intro c hc
    rcases List.mem_append.mp (List.mem_of_mem_head? hc) with hc | hc
    · rw [eq_of_mem_marker hc]
      rfl
    · exact isAlpha_of_isDigit (h.isDigit c hc)
  have hnonempty : s.toList ≠ [] := by
    rw [h.split]
    simp [h.letters_ne]
  unfold parse
  dsimp only
  rw [if_neg hnonempty, h.split, splitMarker_marker a.colFixed (head?_letters_ne_marker h.letters_ne h.isAlpha _)]
  dsimp only
  rw [Text.takeWhile_append_stop h.isAlpha hend, if_neg h.letters_ne, h.col]
  dsimp only
  rw [Text.dropWhile_append_stop h.isAlpha hend, splitMarker_marker a.rowFixed (head?_ne_marker rfl h.isDigit)]
  dsimp only
  rw [Text.takeWhile_all h.isDigit, if_neg h.digits_ne, Text.dropWhile_all h.isDigit, h.row]
  rfl

/-- **An address is read back from its text.** -/
theorem parse_text {a : Address} (h : a.isWithin lastLine lastLine = true) : parse a.text = .ok a := by
  obtain ⟨⟨hcol, hcol'⟩, hrow⟩ := isWithin_lastLine_iff.mp h
  have hspells : Spells a.text.toList a (letterList a.col) (Nat.toDigits 10 a.row) := by
    refine ⟨?_, letterList_ne_nil (by omega), fun c => isAlpha_of_mem_letterList, Nat.toDigits_ne_nil,
      fun c => isDigit_of_mem_toDigits, readLetters_letterList hcol', rowOfDigits?_toDigits hrow⟩
    rw [text, String.toList_ofList, chars_eq]
  exact parse_of_spells hspells

theorem marker_append_splitMarker (cs : List Char) :
    marker (splitMarker cs).1 ++ (splitMarker cs).2 = cs := by
  unfold splitMarker
  split <;> rfl

theorem spells_of_parse {s : String} {a : Address} (h : parse s = .ok a) :
    ∃ letters digits, Spells s.toList a letters digits := by
  unfold parse at h
  dsimp only at h
  split at h
  · cases h
  · split at h
    · cases h
    · next hletters =>
      split at h
      · cases h
      · next col hcol =>
        split at h
        · cases h
        · next hdigits =>
          split at h
          · cases h
          · next htail =>
            split at h
            · cases h
            · next row hrow =>
              cases h
              refine ⟨_, _, ⟨?_, hletters, List.all_eq_true.mp List.all_takeWhile, hdigits,
                List.all_eq_true.mp List.all_takeWhile, hcol, hrow⟩⟩
              have hrest := List.takeWhile_append_dropWhile (p := Char.isDigit)
                (l := (splitMarker ((splitMarker s.toList).2.dropWhile Char.isAlpha)).2)
              rw [Classical.not_not.mp htail, List.append_nil] at hrest
              dsimp only
              rw [hrest, marker_append_splitMarker, List.takeWhile_append_dropWhile,
                marker_append_splitMarker]

theorem le_of_readLetters {cs : List Char} {column column' : Nat} (h : readLetters column cs = some column')
    (hle : column ≤ lastLine) : column ≤ column' ∧ column' ≤ lastLine ∧ (cs ≠ [] → 1 ≤ column') := by
  induction cs generalizing column with
  | nil =>
    cases h
    exact ⟨Nat.le_refl _, hle, fun hnil => absurd rfl hnil⟩
  | cons c cs ih =>
    unfold readLetters at h
    dsimp only at h
    split at h
    · split at h
      · next hnext =>
        obtain ⟨hfrom, hto, -⟩ := ih h hnext
        have hvalue : 1 ≤ letterValue c := Nat.succ_le_succ (Nat.zero_le _)
        exact ⟨by omega, hto, fun _ => by omega⟩
      · cases h
    · cases h

/-- Every address that was read has lines with numbers. -/
theorem isWithin_of_parse {s : String} {a : Address} (h : parse s = .ok a) :
    a.isWithin lastLine lastLine = true := by
  obtain ⟨letters, digits, hspells⟩ := spells_of_parse h
  obtain ⟨-, hcol, hcol'⟩ := le_of_readLetters hspells.col (Nat.zero_le _)
  have hrow := hspells.row
  unfold rowOfDigits? at hrow
  dsimp only at hrow
  split at hrow
  · next hbounds =>
    rw [Option.some.inj hrow] at hbounds
    exact isWithin_lastLine_iff.mpr ⟨⟨hcol' hspells.letters_ne, hcol⟩, hbounds⟩
  · cases hrow

/-- The characters of addresses. -/
theorem of_mem_chars {a : Address} {c : Char} (h : c ∈ a.chars) :
    c = '$' ∨ c.isAlpha = true ∨ c.isDigit = true := by
  rw [chars_eq, List.mem_append, List.mem_append, List.mem_append] at h
  rcases h with h | h | h | h
  · exact Or.inl (eq_of_mem_marker h)
  · exact Or.inr (Or.inl (isAlpha_of_mem_letterList h))
  · exact Or.inl (eq_of_mem_marker h)
  · exact Or.inr (Or.inr (isDigit_of_mem_toDigits h))

end Address

end Grid

open Grid

/-! ### Names and quotes -/

theorem doubleQuotes_cons_of_ne {c : Char} (hc : c ≠ '\'') (name : List Char) :
    doubleQuotes (c :: name) = c :: doubleQuotes name := by
  simp [doubleQuotes, hc]

theorem readQuoted_cons_of_ne {c : Char} (hc : c ≠ '\'') (cs : List Char) :
    readQuoted (c :: cs) = (readQuoted cs).map fun read => (c :: read.1, read.2) := by
  rw [readQuoted.eq_def]
  split
  · next heq => cases heq
  · next heq => exact absurd (List.cons.inj heq).1 hc
  · next heq => exact absurd (List.cons.inj heq).1 hc
  · next heq =>
    obtain ⟨rfl, rfl⟩ := List.cons.inj heq
    rfl

/-- A single quote ends a name. -/
theorem readQuoted_close {rest : List Char} (hrest : rest.head? ≠ some '\'') :
    readQuoted ('\'' :: rest) = some ([], rest) := by
  match rest with
  | [] => rfl
  | c :: rest =>
    have hc : c ≠ '\'' := fun hc => hrest (congrArg some hc)
    rw [readQuoted.eq_def]
    split
    · next heq => cases heq
    · next heq => exact absurd (List.cons.inj (List.cons.inj heq).2).1 hc
    · next heq =>
      rw [(List.cons.inj heq).2]
    · next hother heq => exact (hother (List.cons.inj heq).1.symm).elim

/-- A quoted name is read back, with what follows it. -/
theorem readQuoted_doubleQuotes (name : List Char) {rest : List Char} (hrest : rest.head? ≠ some '\'') :
    readQuoted (doubleQuotes name ++ '\'' :: rest) = some (name, rest) := by
  induction name with
  | nil => exact readQuoted_close hrest
  | cons c name ih =>
    by_cases hc : c = '\''
    · subst hc
      have htwice : doubleQuotes ('\'' :: name) ++ '\'' :: rest =
          '\'' :: '\'' :: (doubleQuotes name ++ '\'' :: rest) := rfl
      rw [htwice, readQuoted, ih]
      rfl
    · rw [doubleQuotes_cons_of_ne hc, List.cons_append, readQuoted_cons_of_ne hc, ih]
      rfl

/-- A text in which every quote stands twice is closed by a single one. -/
theorem closes_doubled (quote : Char) (cs : List Char) :
    Lexer.Closes quote ((cs.flatMap fun c => if c = quote then [quote, quote] else [c]) ++ [quote]) := by
  induction cs with
  | nil => exact .close
  | cons c cs ih =>
    rw [List.flatMap_cons]
    split
    · exact .twice ih
    · next hc => exact .char hc ih

/-! ### Characters of references -/

/-- A character that references and truth values are written with, quoted names aside, whatever the alphabet. -/
def isWritten (c : Char) : Bool := isBare c || c == '!' || c == ':' || c == '$'

theorem isWritten_of_isBare {c : Char} (h : isBare c = true) : isWritten c = true := by
  rw [isWritten, h]
  rfl

/-- No alphabet has the separator in a name. -/
theorem Locale.HasPlainSeparator.isBare_eq {l : Locale} (hl : l.HasPlainSeparator) : isBare l.separator = false := by
  have hname := hl.isNameChar_eq
  unfold isNameChar at hname
  rw [Text.isLetterOrNumeral_of_ascii hl.isAscii] at hname
  unfold isBare
  rw [hname, decide_eq_false (Nat.not_le.mpr hl.isAscii)]
  rfl

/-- A character that references are written with goes on with an operand. -/
theorem isSpecial_of_isWritten {l : Locale} (hl : l.HasPlainSeparator) {c : Char} (h : isWritten c = true) :
    Lexer.isSpecial l c = false := by
  have hseparator : c ≠ l.separator := by
    rintro rfl
    simp only [isWritten, Bool.or_eq_true, hl.isBare_eq, Bool.false_eq_true, false_or, beq_iff_eq] at h
    have hnot := hl.not_reserved
    rcases h with (h | h) | h <;> rw [h] at hnot <;> exact hnot (by decide)
  have hall : ([' ', '\n', '\t', '\r', '+', '-', '*', '/', '^', '&', '=', '>', '<', '%', ')', '}', '"', '\'',
      '#', '(', '{', '[', ']'] : List Char).all (fun d => !isWritten d) = true := by decide
  rw [← Bool.not_eq_true]
  intro hspecial
  have hmem : c ∈ ([' ', '\n', '\t', '\r', '+', '-', '*', '/', '^', '&', '=', '>', '<', '%', ')', '}', '"',
      '\'', '#', '(', '{', '[', ']'] : List Char) := by
    simp only [Lexer.isSpecial, Lexer.endsOperand, Lexer.isSpace, Lexer.isSign, Bool.or_eq_true,
      beq_iff_eq, hseparator, or_false] at hspecial
    simp only [List.mem_cons]
    grind
  have hnot := List.all_eq_true.mp hall c hmem
  rw [h] at hnot
  cases hnot

/-- The characters of addresses are letters, digits and markers. -/
theorem Grid.Address.isBare_of_mem_chars {a : Address} {c : Char} (h : c ∈ a.chars) : c = '$' ∨ isBare c = true := by
  refine (of_mem_chars h).imp_right fun h => isBare_of_isAlphanum ?_
  rw [Char.isAlphanum, Bool.or_eq_true]
  exact h

theorem Grid.Address.not_mem_chars {a : Address} {d : Char} (hmarker : d ≠ '$') (hd : isBare d = false) :
    d ∉ a.chars := by
  intro hmem
  have hbare := (isBare_of_mem_chars hmem).resolve_left hmarker
  rw [hd] at hbare
  cases hbare

theorem Grid.Address.isWritten_of_mem_chars {a : Address} {c : Char} (h : c ∈ a.chars) : isWritten c = true := by
  rcases isBare_of_mem_chars h with rfl | hbare
  · rfl
  · exact isWritten_of_isBare hbare

/-! ### References -/

namespace Reference

/-- A reference that can be written: no name is empty and the lines have numbers. -/
def IsWritable : Reference → Prop
  | .cell sheet a => sheet ≠ some "" ∧ a.isWithin lastLine lastLine = true
  | .range sheet a b =>
    sheet ≠ some "" ∧ a.isWithin lastLine lastLine = true ∧ b.isWithin lastLine lastLine = true
  | .name n => n ≠ ""

theorem toList_ne_nil {s : String} (h : s ≠ "") : s.toList ≠ [] := by
  intro hnil
  exact h (String.toList_inj.mp hnil)

theorem toList_quoted (s : String) : (quoted s).toList = '\'' :: (doubleQuotes s.toList ++ ['\'']) := by
  rw [quoted, String.toList_ofList]
  rfl

theorem splitQualifier_of_unquoted {cs : List Char} (hquote : cs.head? ≠ some '\'') (hmark : '!' ∉ cs) :
    splitQualifier cs = .ok (.address none cs) := by
  have hall : ∀ c ∈ cs, decide (c ≠ '!') = true := fun c hc =>
    decide_eq_true fun heq => hmark (heq ▸ hc)
  have hdrop : cs.dropWhile (· ≠ '!') = [] := Text.dropWhile_all hall
  unfold splitQualifier
  split
  · exact absurd rfl hquote
  · rw [hdrop]

theorem splitQualifier_of_sheet {name rest : List Char} (hquote : name.head? ≠ some '\'') (hne : name ≠ [])
    (hmark : '!' ∉ name) : splitQualifier (name ++ '!' :: rest) =
      .ok (.address (some (String.ofList name)) rest) := by
  have hall : ∀ c ∈ name, decide (c ≠ '!') = true := fun c hc =>
    decide_eq_true fun heq => hmark (heq ▸ hc)
  have hstop : ∀ c ∈ ('!' :: rest).head?, decide (c ≠ '!') = false := by
    rintro c ⟨⟩
    rfl
  unfold splitQualifier
  split
  · next inner heq =>
    obtain ⟨c, cs, rfl⟩ := List.exists_cons_of_ne_nil hne
    exact absurd (congrArg some (List.cons.inj heq).1) hquote
  · rw [Text.dropWhile_append_stop hall hstop, Text.takeWhile_append_stop hall hstop]
    dsimp only
    rw [if_pos hne]

theorem head?_chars_ne (a : Address) : a.chars.head? ≠ some '\'' := fun hhead =>
  Address.not_mem_chars (d := '\'') (by decide) (by decide) (List.mem_of_mem_head? hhead)

theorem ne_colon_of_mem_chars {a : Address} : ∀ c ∈ a.chars, decide (c ≠ ':') = true := fun _ hc =>
  decide_eq_true fun heq => Address.not_mem_chars (d := ':') (by decide) (by decide) (heq ▸ hc)

theorem sheet_ne_of_splitQualifier {cs rest : List Char} {sheet : Option String}
    (h : splitQualifier cs = .ok (.address sheet rest)) : sheet ≠ some "" := by
  have hne : ∀ {name : List Char}, name ≠ [] → some (String.ofList name) ≠ some "" := by
    intro name hname heq
    have hnil := congrArg String.toList (Option.some.inj heq)
    rw [String.toList_ofList] at hnil
    exact hname hnil
  unfold splitQualifier at h
  dsimp only at h
  split at h
  · split at h
    · cases h
    · cases h
    · split at h
      · next hname =>
        cases h
        exact hne hname.2
      · cases h
  · split at h
    · cases h
      simp
    · split at h
      · next hname =>
        cases h
        exact hne hname
      · cases h

/-! ### Words of references -/

variable {l : Locale}

theorem gathers_append (hl : l.HasPlainSeparator) {a b : List Char} (ha : Lexer.Gathers l a)
    (hb : ∀ c ∈ b, isWritten c = true) : Lexer.Gathers l (a ++ b) := by
  induction b generalizing a with
  | nil =>
    rw [List.append_nil]
    exact ha
  | cons c b ih =>
    have hc : Lexer.isSpecial l c = false := isSpecial_of_isWritten hl (hb c List.mem_cons_self)
    have hall := ih (ha.char (Or.inl hc)) fun d hd => hb d (List.mem_cons_of_mem c hd)
    rw [List.append_assoc, List.singleton_append] at hall
    exact hall

theorem gathers_quoted (name : String) : Lexer.Gathers l (quoted name).toList := by
  rw [Reference.toList_quoted]
  exact .name .nil (Or.inl rfl) (closes_doubled '\'' name.toList)

/-- Characters that begin neither a number nor a text nor an error code. -/
def Opens (cs : List Char) : Prop :=
  ∃ c rest, cs = c :: rest ∧ c.isDigit = false ∧ c ≠ '"' ∧ c ≠ '#'

theorem Opens.append {a : List Char} (h : Opens a) (b : List Char) : Opens (a ++ b) := by
  obtain ⟨c, rest, rfl, hc⟩ := h
  exact ⟨c, rest ++ b, rfl, hc⟩

theorem opens_quoted (name : String) : Opens (quoted name).toList := by
  rw [Reference.toList_quoted]
  exact ⟨'\'', _, rfl, by decide⟩

theorem opens_chars {a : Address} (ha : a.isWithin lastLine lastLine = true) : Opens a.text.toList := by
  rw [Address.text, String.toList_ofList, Address.chars_eq]
  have hcol : a.col ≠ 0 := by
    have h := (Address.isWithin_lastLine_iff.mp ha).1.1
    omega
  obtain ⟨c, cs, hcs⟩ := List.exists_cons_of_ne_nil (letterList_ne_nil hcol)
  cases hfixed : a.colFixed with
  | true => exact ⟨'$', _, rfl, by decide⟩
  | false =>
    rw [hcs]
    have halpha : c.isAlpha = true := isAlpha_of_mem_letterList (by rw [hcs]; exact List.mem_cons_self)
    refine ⟨c, _, rfl, ?_, ?_, ?_⟩
    · rw [← Bool.not_eq_true]
      intro hdigit
      rw [isAlpha_of_isDigit hdigit] at halpha
      cases halpha
    · rintro rfl
      cases halpha
    · rintro rfl
      cases halpha

/-- A text with a character that another one lacks, case aside, differs from it. -/
theorem sameAscii_eq_false_of_mem {s t : String} {c : Char} (hc : c ∈ s.toList)
    (ht : c.toLower ∉ t.toList.map Char.toLower) : Text.sameAscii s t = false := by
  rw [← Bool.not_eq_true, Text.sameAscii, beq_iff_eq]
  intro heq
  refine ht ?_
  rw [← Text.toList_foldAscii t, ← heq, Text.toList_foldAscii]
  exact List.mem_map_of_mem hc

theorem toLower_of_isDigit {c : Char} (h : c.isDigit = true) : c.toLower = c := by
  exact dif_neg (of_decide_eq_false (isUpper_of_isDigit h))

/-- A text with a digit or a quote is no truth value. -/
theorem not_logical_of_mem {s : String} {c : Char} (hc : c ∈ s.toList) (h : c.isDigit = true ∨ c = '\'') :
    Text.sameAscii s "TRUE" = false ∧ Text.sameAscii s "FALSE" = false := by
  have hall : ["TRUE", "FALSE"].all (fun t => (t.toList.map Char.toLower).all fun d => !d.isDigit && d != '\'') =
      true := by decide
  have hletters : ∀ t ∈ ["TRUE", "FALSE"], ∀ d ∈ t.toList.map Char.toLower, d.isDigit = false ∧ d ≠ '\'' := by
    intro t ht d hd
    simpa using List.all_eq_true.mp (List.all_eq_true.mp hall t ht) d hd
  have hnone : ∀ t ∈ ["TRUE", "FALSE"], c.toLower ∉ t.toList.map Char.toLower := by
    intro t ht hmem
    obtain ⟨hdigit, hquote⟩ := hletters t ht _ hmem
    rcases h with h | rfl
    · rw [toLower_of_isDigit h, h] at hdigit
      cases hdigit
    · exact hquote rfl
  exact ⟨sameAscii_eq_false_of_mem hc (hnone "TRUE" (by decide)),
    sameAscii_eq_false_of_mem hc (hnone "FALSE" (by decide))⟩

/-- Characters that do not begin with a digit await no exponent. -/
theorem awaitsExponent_of_opens {cs : List Char} (h : Opens cs) (mark : Char) :
    Lexer.awaitsExponent mark cs = false := by
  obtain ⟨c, rest, rfl, hdigit, -⟩ := h
  unfold Lexer.awaitsExponent
  split
  · next heq =>
    obtain ⟨rfl, -⟩ := List.cons.inj heq
    rw [hdigit]
    rfl
  · rfl

end Reference

/-! ### References with any alphabet -/

namespace Alphabet

variable {A : Alphabet}

/-- The qualifier of a reference is read back. -/
theorem splitQualifier_qualifierText {sheet : Option String} (hsheet : sheet ≠ some "") {rest : List Char}
    (hquote : rest.head? ≠ some '\'') (hmark : '!' ∉ rest) :
    splitQualifier ((A.qualifierText sheet).toList ++ rest) = .ok (.address sheet rest) := by
  cases sheet with
  | none => exact Reference.splitQualifier_of_unquoted hquote hmark
  | some s =>
    have hne : s ≠ "" := fun h => hsheet (congrArg some h)
    unfold qualifierText sheetQualifier
    dsimp only
    split
    · next hplain =>
      have hquote' : s.toList.head? ≠ some '\'' := fun hhead =>
        not_mem_of_isBare (isBare_of_isPlainSheetName hplain) (by decide) (List.mem_of_mem_head? hhead)
      have hmark' : '!' ∉ s.toList := not_mem_of_isBare (isBare_of_isPlainSheetName hplain) (by decide)
      have htext : (s ++ "!").toList ++ rest = s.toList ++ '!' :: rest := by simp
      rw [htext, Reference.splitQualifier_of_sheet hquote' (Reference.toList_ne_nil hne) hmark', String.ofList_toList]
    · rw [String.toList_append, Reference.toList_quoted]
      have hquoted : '\'' :: (doubleQuotes s.toList ++ ['\'']) ++ "!".toList ++ rest =
          '\'' :: (doubleQuotes s.toList ++ '\'' :: '!' :: rest) := by simp
      rw [hquoted, splitQualifier, readQuoted_doubleQuotes s.toList (by simp)]
      dsimp only
      rw [if_pos ⟨rfl, Reference.toList_ne_nil hne⟩, String.ofList_toList]

theorem parse_cell {sheet : Option String} {a : Address} (hsheet : sheet ≠ some "")
    (ha : a.isWithin lastLine lastLine = true) : A.parse (A.text (.cell sheet a)) = .ok (.cell sheet a) := by
  have htext : (A.text (.cell sheet a)).toList = (A.qualifierText sheet).toList ++ a.chars := by
    rw [text, String.toList_append, Address.text, String.toList_ofList]
  have hparse : Address.parse (String.ofList a.chars) = .ok a := Address.parse_text ha
  unfold parse
  dsimp only
  rw [htext, splitQualifier_qualifierText hsheet (Reference.head?_chars_ne a)
    (Address.not_mem_chars (by decide) (by decide))]
  dsimp only
  rw [Text.dropWhile_all Reference.ne_colon_of_mem_chars, Text.takeWhile_all Reference.ne_colon_of_mem_chars]
  dsimp only
  rw [hparse]

theorem parse_range {sheet : Option String} {a b : Address} (hsheet : sheet ≠ some "")
    (ha : a.isWithin lastLine lastLine = true) (hb : b.isWithin lastLine lastLine = true) :
    A.parse (A.text (.range sheet a b)) = .ok (.range sheet a b) := by
  have htext : (A.text (.range sheet a b)).toList =
      (A.qualifierText sheet).toList ++ (a.chars ++ ':' :: b.chars) := by
    simp [text, Address.text]
  have hquote : (a.chars ++ ':' :: b.chars).head? ≠ some '\'' := by
    rw [List.head?_append]
    intro hhead
    rcases Option.or_eq_some_iff.mp hhead with hhead | ⟨-, hhead⟩
    · exact Reference.head?_chars_ne a hhead
    · exact absurd (Option.some.inj hhead) (by decide)
  have hmark : '!' ∉ a.chars ++ ':' :: b.chars := by
    rw [List.mem_append, List.mem_cons]
    rintro (hmem | hcolon | hmem)
    · exact Address.not_mem_chars (by decide) (by decide) hmem
    · exact absurd hcolon (by decide)
    · exact Address.not_mem_chars (by decide) (by decide) hmem
  have hstop : ∀ c ∈ (':' :: b.chars).head?, decide (c ≠ ':') = false := by
    rintro c ⟨⟩
    rfl
  have hparse : Address.parse (String.ofList a.chars) = .ok a := Address.parse_text ha
  have hparse' : Address.parse (String.ofList b.chars) = .ok b := Address.parse_text hb
  unfold parse
  dsimp only
  rw [htext, splitQualifier_qualifierText hsheet hquote hmark]
  dsimp only
  rw [Text.dropWhile_append_stop Reference.ne_colon_of_mem_chars hstop,
    Text.takeWhile_append_stop Reference.ne_colon_of_mem_chars hstop]
  dsimp only
  rw [Reference.splitQualifier_of_unquoted (Reference.head?_chars_ne b) (Address.not_mem_chars (by decide) (by decide))]
  dsimp only
  rw [hparse, hparse']
  rfl

theorem isDigit_eq_false_of_isLetter {c : Char} (h : A.isLetter c = true) : c.isDigit = false := by
  rw [← Bool.not_eq_true]
  intro hdigit
  have hascii : c.toNat < 128 := Nat.lt_of_le_of_lt (digit_bounds hdigit).2 (by decide)
  rw [A.isLetter_of_ascii c hascii, isAlpha_of_isDigit hdigit] at h
  cases h

/-- What makes a name plain, whatever the alphabet. -/
structure IsPlain (n : String) (c : Char) (cs : List Char) : Prop where
  split : n.toList = c :: cs
  first : c.isDigit = false
  all : ∀ d ∈ n.toList, isBare d = true
  not_true : Text.sameAscii n "TRUE" = false
  not_false : Text.sameAscii n "FALSE" = false
  not_cell : hasCellShape n.toList = false

theorem isPlain_of_isPlainName {n : String} (h : A.isPlainName n = true) : ∃ c cs, IsPlain n c cs := by
  unfold isPlainName at h
  split at h
  · cases h
  · next c cs hcs =>
    simp only [Bool.and_eq_true, Bool.or_eq_true, beq_iff_eq, Bool.not_eq_true'] at h
    obtain ⟨⟨⟨⟨hfirst, hall⟩, htrue⟩, hfalse⟩, hcell⟩ := h
    refine ⟨c, cs, hcs, ?_, ?_, htrue, hfalse, by rw [hcs]; exact hcell⟩
    · rcases hfirst with hletter | rfl
      · exact isDigit_eq_false_of_isLetter hletter
      · rfl
    · intro d hd
      rw [hcs] at hd
      rcases List.mem_cons.mp hd with rfl | hd
      · rcases hfirst with hletter | rfl
        · exact isBare_of_isLetter hletter
        · rfl
      · exact isBare_of_isNameChar (List.all_eq_true.mp hall d hd)

/-- A plain name is no address. -/
theorem not_parse_of_isPlain {n : String} {c : Char} {cs : List Char} (h : IsPlain n c cs) (a : Address) :
    Address.parse n ≠ .ok a := by
  intro hparse
  obtain ⟨letters, digits, hspells⟩ := Address.spells_of_parse hparse
  have hmarker : '$' ∉ n.toList := not_mem_of_isBare h.all (by decide)
  have hfree : ∀ fixed, (∀ c ∈ Address.marker fixed, c ∈ n.toList) → Address.marker fixed = [] := by
    intro fixed hsub
    cases fixed with
    | true => exact absurd (hsub '$' List.mem_cons_self) hmarker
    | false => rfl
  have hsplit := hspells.split
  rw [hfree a.colFixed fun c hc => by rw [hsplit]; exact List.mem_append_left _ hc,
    hfree a.rowFixed fun c hc => by
      rw [hsplit]
      exact List.mem_append_right _ (List.mem_append_right _ (List.mem_append_left _ hc)),
    List.nil_append, List.nil_append] at hsplit
  have hstop : ∀ c ∈ digits.head?, c.isAlpha = false := fun c hc =>
    isAlpha_of_isDigit (hspells.isDigit c (List.mem_of_mem_head? hc))
  have hcell := h.not_cell
  unfold hasCellShape at hcell
  rw [hsplit, Text.dropWhile_append_stop hspells.isAlpha hstop] at hcell
  dsimp only at hcell
  have hshorter : digits.length < (letters ++ digits).length := by
    rw [List.length_append]
    have := List.length_pos_iff.mpr hspells.letters_ne
    omega
  rw [decide_eq_true hshorter, List.all_eq_true.mpr hspells.isDigit] at hcell
  simp [hspells.digits_ne] at hcell

theorem parse_name {n : String} (hn : n ≠ "") : A.parse (A.text (.name n)) = .ok (.name n) := by
  by_cases hplain : A.isPlainName n = true
  · have htext : A.text (.name n) = n := if_pos hplain
    obtain ⟨c, cs, h⟩ := isPlain_of_isPlainName hplain
    have hquote : n.toList.head? ≠ some '\'' := fun hhead =>
      not_mem_of_isBare h.all (by decide) (List.mem_of_mem_head? hhead)
    have hcolon : ∀ c ∈ n.toList, decide (c ≠ ':') = true := fun c hc =>
      decide_eq_true fun heq => not_mem_of_isBare h.all (d := ':') (by decide) (heq ▸ hc)
    unfold parse
    dsimp only
    rw [htext, Reference.splitQualifier_of_unquoted hquote (not_mem_of_isBare h.all (by decide))]
    dsimp only
    rw [Text.dropWhile_all hcolon, Text.takeWhile_all hcolon, String.ofList_toList]
    dsimp only
    split
    · next a hparse => exact absurd hparse (not_parse_of_isPlain h a)
    · exact if_pos ⟨rfl, hplain⟩
  · have htext : A.text (.name n) = quoted n := if_neg hplain
    unfold parse
    dsimp only
    rw [htext, Reference.toList_quoted, splitQualifier, readQuoted_doubleQuotes n.toList (by simp)]
    dsimp only
    rw [String.ofList_toList, if_pos hn]

/-- **A reference is read back from its text.** -/
theorem parse_text {r : Reference} (h : r.IsWritable) : A.parse (A.text r) = .ok r := by
  cases r with
  | cell sheet a => exact parse_cell h.1 h.2
  | range sheet a b => exact parse_range h.1 h.2.1 h.2.2
  | name n => exact parse_name h

/-- Every reference that was read can be written. -/
theorem isWritable_of_parse {s : String} {r : Reference} (h : A.parse s = .ok r) : r.IsWritable := by
  unfold parse at h
  dsimp only at h
  split at h
  · cases h
  · split at h
    · next hinner =>
      cases h
      exact hinner
    · cases h
  · next sheet rest hqualifier =>
    have hsheet := Reference.sheet_ne_of_splitQualifier hqualifier
    split at h
    · split at h
      · cases h
      · cases h
      · split at h
        · split at h
          · next a b ha hb =>
            cases h
            exact ⟨hsheet, Address.isWithin_of_parse ha, Address.isWithin_of_parse hb⟩
          · cases h
        · cases h
    · split at h
      · next a ha =>
        cases h
        exact ⟨hsheet, Address.isWithin_of_parse ha⟩
      · split at h
        · next hplain =>
          cases h
          obtain ⟨c, cs, hname⟩ := isPlain_of_isPlainName hplain.2
          intro hnil
          have hsplit := hname.split
          rw [hnil] at hsplit
          cases hsplit
        · cases h

/-! ### References among other words -/

variable {l : Locale}

theorem gathers_qualifierText (hl : l.HasPlainSeparator) (sheet : Option String) :
    Lexer.Gathers l (A.qualifierText sheet).toList := by
  have hmark : ∀ c ∈ "!".toList, isWritten c = true := by
    intro c hc
    rw [List.mem_singleton.mp hc]
    rfl
  cases sheet with
  | none => exact .nil
  | some s =>
    unfold qualifierText sheetQualifier
    dsimp only
    rw [String.toList_append]
    split
    · next hplain =>
      have hs : ∀ c ∈ s.toList, isWritten c = true := fun c hc =>
        isWritten_of_isBare (isBare_of_isPlainSheetName hplain c hc)
      exact Reference.gathers_append hl (Reference.gathers_append hl .nil hs) hmark
    · exact Reference.gathers_append hl (Reference.gathers_quoted s) hmark

theorem gathers_text (hl : l.HasPlainSeparator) (r : Reference) : Lexer.Gathers l (A.text r).toList := by
  have hchars : ∀ (a : Address), ∀ c ∈ a.text.toList, isWritten c = true := by
    intro a c hc
    rw [Address.text, String.toList_ofList] at hc
    exact Address.isWritten_of_mem_chars hc
  cases r with
  | cell sheet a =>
    unfold text
    rw [String.toList_append]
    exact Reference.gathers_append hl (gathers_qualifierText hl sheet) (hchars a)
  | range sheet a b =>
    unfold text
    rw [String.toList_append, String.toList_append, String.toList_append]
    have hcolon : ∀ c ∈ ":".toList, isWritten c = true := by
      intro c hc
      rw [List.mem_singleton.mp hc]
      rfl
    have hleft := Reference.gathers_append hl (gathers_qualifierText (A := A) hl sheet) (hchars a)
    exact Reference.gathers_append hl (Reference.gathers_append hl hleft hcolon) (hchars b)
  | name n =>
    unfold text
    dsimp only
    split
    · next hplain =>
      obtain ⟨c, cs, h⟩ := isPlain_of_isPlainName hplain
      exact Reference.gathers_append hl .nil fun d hd => isWritten_of_isBare (h.all d hd)
    · exact Reference.gathers_quoted n

theorem opens_sheetQualifier {s : String} : Reference.Opens (A.sheetQualifier s).toList := by
  unfold sheetQualifier
  split
  · next hplain =>
    have hmem : ∀ d, isBare d = false → d ∉ s.toList := fun d =>
      not_mem_of_isBare (isBare_of_isPlainSheetName hplain)
    unfold isPlainSheetName at hplain
    split at hplain
    · cases hplain
    · next c cs hcs =>
      rw [Bool.and_eq_true, Bool.not_eq_true'] at hplain
      rw [hcs] at hmem ⊢
      refine ⟨c, cs, rfl, hplain.1, ?_, ?_⟩
      · rintro rfl
        exact hmem '"' (by decide) List.mem_cons_self
      · rintro rfl
        exact hmem '#' (by decide) List.mem_cons_self
  · exact Reference.opens_quoted s

theorem opens_qualified {sheet : Option String} {cs : List Char} (h : Reference.Opens cs) :
    Reference.Opens ((A.qualifierText sheet).toList ++ cs) := by
  cases sheet with
  | none => exact h
  | some s =>
    unfold qualifierText
    dsimp only
    rw [String.toList_append]
    exact (opens_sheetQualifier.append _).append _

theorem opens_text {r : Reference} (h : r.IsWritable) : Reference.Opens (A.text r).toList := by
  cases r with
  | cell sheet a =>
    unfold text
    rw [String.toList_append]
    exact opens_qualified (Reference.opens_chars h.2)
  | range sheet a b =>
    unfold text
    rw [String.toList_append, String.toList_append, String.toList_append]
    exact ((opens_qualified (Reference.opens_chars h.2.1)).append _).append _
  | name n =>
    unfold text
    dsimp only
    split
    · next hplain =>
      obtain ⟨c, cs, hname⟩ := isPlain_of_isPlainName hplain
      have hmem : ∀ d, isBare d = false → d ∉ n.toList := fun d hd => not_mem_of_isBare hname.all hd
      rw [hname.split] at hmem ⊢
      refine ⟨c, cs, rfl, hname.first, ?_, ?_⟩
      · rintro rfl
        exact hmem '"' (by decide) List.mem_cons_self
      · rintro rfl
        exact hmem '#' (by decide) List.mem_cons_self
    · exact Reference.opens_quoted n

/-- The text of a reference is no truth value. -/
theorem not_logical_text (r : Reference) :
    Text.sameAscii (A.text r) "TRUE" = false ∧ Text.sameAscii (A.text r) "FALSE" = false := by
  have hdigit : ∀ a : Address, ∃ d ∈ a.text.toList, d.isDigit = true := by
    intro a
    obtain ⟨d, ds, hds⟩ := List.exists_cons_of_ne_nil (Nat.toDigits_ne_nil (n := a.row) (b := 10))
    have hmem : d ∈ Nat.toDigits 10 a.row := by rw [hds]; exact List.mem_cons_self
    refine ⟨d, ?_, isDigit_of_mem_toDigits hmem⟩
    rw [Address.text, String.toList_ofList, Address.chars_eq]
    exact List.mem_append_right _ (List.mem_append_right _ (List.mem_append_right _ hmem))
  cases r with
  | cell sheet a =>
    obtain ⟨d, hd, hdigit⟩ := hdigit a
    refine Reference.not_logical_of_mem (c := d) ?_ (Or.inl hdigit)
    rw [text, String.toList_append]
    exact List.mem_append_right _ hd
  | range sheet a b =>
    obtain ⟨d, hd, hdigit⟩ := hdigit b
    refine Reference.not_logical_of_mem (c := d) ?_ (Or.inl hdigit)
    rw [text, String.toList_append]
    exact List.mem_append_right _ hd
  | name n =>
    unfold text
    dsimp only
    split
    · next hplain =>
      obtain ⟨c, cs, hname⟩ := isPlain_of_isPlainName hplain
      exact ⟨hname.not_true, hname.not_false⟩
    · refine Reference.not_logical_of_mem (c := '\'') ?_ (Or.inr rfl)
      rw [Reference.toList_quoted]
      exact List.mem_cons_self

theorem operandRole_text {r : Reference} (h : r.IsWritable) :
    Lexer.operandRole l (A.text r).toList = .range := by
  obtain ⟨c, cs, hcs, hdigit, htext, herror⟩ := opens_text h
  obtain ⟨htrue, hfalse⟩ := not_logical_text r
  have hsame : String.ofList (c :: cs) = A.text r := by rw [← hcs, String.ofList_toList]
  rw [hcs]
  unfold Lexer.operandRole
  dsimp only
  rw [if_neg htext, if_neg herror, hsame, htrue, hfalse, hdigit]
  rfl

/-- **In a formula the text of a reference is a single operand**, when something follows that ends an
operand. -/
theorem fits_text (hl : l.HasPlainSeparator) {r : Reference} (h : r.IsWritable) (x : Lexer.Context)
    {rest : List Char} (hrest : ∀ c ∈ rest.head?, Lexer.endsOperand l.separator c = true) :
    Lexer.Fits l x ⟨[], (A.text r).toList, .operand, .range⟩ rest := by
  have hne : (A.text r).toList ≠ [] := by
    obtain ⟨c, cs, hcs, -⟩ := opens_text h
    rw [hcs]
    exact List.cons_ne_nil c cs
  have hcuts : Lexer.Cuts l (A.text r).toList rest := by
    match rest with
    | [] => trivial
    | c :: rest =>
      refine Or.inl ⟨hrest c rfl, fun hsign => ?_⟩
      have hawaits := hsign.2
      rw [Reference.awaitsExponent_of_opens (opens_text h)] at hawaits
      cases hawaits
  have hfits := Lexer.Fits.operand (x := x) (gathers_text hl r) hne hcuts
  rw [operandRole_text h] at hfits
  exact hfits

end Alphabet

/-! ### References with the alphabet of all scripts -/

namespace Reference

variable {l : Locale} {r : Reference}

/-- **A reference is read back from its text.** -/
theorem parse_text (h : r.IsWritable) : parse r.text = .ok r := by
  rw [← Alphabet.text_unicode, ← Alphabet.parse_unicode]
  exact Alphabet.parse_text h

/-- Every reference that was read can be written. -/
theorem isWritable_of_parse {s : String} (h : parse s = .ok r) : r.IsWritable := by
  rw [← Alphabet.parse_unicode] at h
  exact Alphabet.isWritable_of_parse h

theorem gathers_text (hl : l.HasPlainSeparator) (r : Reference) : Lexer.Gathers l r.text.toList := by
  rw [← Alphabet.text_unicode]
  exact Alphabet.gathers_text hl r

theorem opens_text (h : r.IsWritable) : Opens r.text.toList := by
  rw [← Alphabet.text_unicode]
  exact Alphabet.opens_text h

/-- **In a formula the text of a reference is a single operand**, when something follows that ends an
operand. -/
theorem fits_text (hl : l.HasPlainSeparator) (h : r.IsWritable) (x : Lexer.Context) {rest : List Char}
    (hrest : ∀ c ∈ rest.head?, Lexer.endsOperand l.separator c = true) :
    Lexer.Fits l x ⟨[], r.text.toList, .operand, .range⟩ rest := by
  rw [← Alphabet.text_unicode]
  exact Alphabet.fits_text hl h x hrest

end Reference

end Spreadsheet
