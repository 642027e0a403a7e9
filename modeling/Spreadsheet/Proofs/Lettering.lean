import Mathlib
import Spreadsheet.Proofs.Slicing
import Spreadsheet.Proofs.Spelling

/-!
# Lettering: columns and their letters, addresses and their texts

Letters are digits from 1 to 26, and a column is the sum of its letters' values, each multiplied by a power of 26.
There is no zero among these digits, so a column has one spelling in capitals only.

* `readLetters_eq`, `letterList_lettersValue` — reading finds this sum unless it is beyond the last line, and writing goes
  back from it to the letters.
* `Address.parse_eq_ok_iff` — the texts of addresses.
* `Address.scan?_eq` — an address can be read byte by byte, in checked words of 32 bits: no byte outside of the text is
  asked for, and the text is never cut inside a character, whatever characters it has.
* `lettersAndAddresses_correspond` — letters and columns, and texts and addresses, correspond to each other.
-/

namespace Spreadsheet

open Text

namespace Grid

/-! ### Values of digits -/

/-- The number that characters write in a base, the last of them being worth its own value. -/
def placeValue (base : Nat) (value : Char → Nat) (cs : List Char) : Nat := Nat.ofDigits base (cs.reverse.map value)

/-- The column that letters are worth, however great. -/
def lettersValue (cs : List Char) : Nat := placeValue 26 letterValue cs

/-- The row that digits are worth, however great. -/
def digitsValue (cs : List Char) : Nat := placeValue 10 (fun d => d.toNat - '0'.toNat) cs

/-- Horner's rule, started with a number that was read before. -/
theorem foldl_eq_placeValue (base : Nat) (value : Char → Nat) (cs : List Char) (start : Nat) :
    cs.foldl (fun n c => base * n + value c) start = base ^ cs.length * start + placeValue base value cs := by
  induction cs generalizing start with
  | nil => simp [placeValue]
  | cons c cs ih =>
    rw [List.foldl_cons, ih, List.length_cons, placeValue, placeValue, List.reverse_cons, List.map_append,
      Nat.ofDigits_append, List.map_singleton, Nat.ofDigits_singleton, List.length_map, List.length_reverse]
    ring

/-- The column of letters behind those of a column that was read before, however great. -/
def lettersBehind (column : Nat) (cs : List Char) : Nat := cs.foldl (fun n c => 26 * n + letterValue c) column

theorem lettersBehind_cons (column : Nat) (c : Char) (cs : List Char) :
    lettersBehind column (c :: cs) = lettersBehind (26 * column + letterValue c) cs := rfl

theorem lettersBehind_zero (cs : List Char) : lettersBehind 0 cs = lettersValue cs := by
  rw [lettersBehind, foldl_eq_placeValue, Nat.mul_zero, Nat.zero_add]
  rfl

/-! ### Letters -/

theorem le_lettersBehind (cs : List Char) (column : Nat) : column ≤ lettersBehind column cs := by
  induction cs generalizing column with
  | nil => exact Nat.le_refl _
  | cons c cs ih => exact Nat.le_trans (by omega) (ih (26 * column + letterValue c))

/-- **Letters are read as what they are worth**, unless that is beyond the last line. A part of them that is beyond it
is enough, for what follows only adds to it. -/
theorem readLetters_eq {cs : List Char} (h : ∀ c ∈ cs, c.isAlpha = true) {column : Nat} (hcolumn : column ≤ lastLine) :
    readLetters column cs = if lettersBehind column cs ≤ lastLine then some (lettersBehind column cs) else none := by
  induction cs generalizing column with
  | nil => exact (if_pos hcolumn).symm
  | cons c cs ih =>
    have hc : c.isAlpha = true := h c List.mem_cons_self
    rw [lettersBehind_cons]
    simp only [readLetters, hc, if_true]
    by_cases hnext : 26 * column + letterValue c ≤ lastLine
    · rw [if_pos hnext]
      exact ih (fun d hd => h d (List.mem_cons_of_mem c hd)) hnext
    · have hle := le_lettersBehind cs (26 * column + letterValue c)
      rw [if_neg hnext, if_neg (by omega)]

theorem column?_eq {s : String} (hne : s ≠ "") (h : ∀ c ∈ s.toList, c.isAlpha = true) :
    column? s = if lettersValue s.toList ≤ lastLine then some (lettersValue s.toList) else none := by
  rw [column?, if_neg (Reference.toList_ne_nil hne), readLetters_eq h (Nat.zero_le _), lettersBehind_zero]

theorem one_le_lettersValue {cs : List Char} (h : cs ≠ []) : 1 ≤ lettersValue cs := by
  obtain ⟨c, rest, rfl⟩ := List.exists_cons_of_ne_nil h
  have hvalue : 1 ≤ letterValue c := Nat.succ_le_succ (Nat.zero_le _)
  rw [← lettersBehind_zero, lettersBehind_cons]
  exact Nat.le_trans (by omega) (le_lettersBehind rest _)

theorem isAscii_isAlpha : IsAscii Char.isAlpha := by
  intro c hc
  simp only [Char.isAlpha, Char.isUpper, Char.isLower, Bool.or_eq_true, Bool.and_eq_true, decide_eq_true_eq, ge_iff_le,
    UInt32.le_iff_toNat_le] at hc
  show c.val.toNat < 128
  have hupper : 'Z'.val.toNat = 90 := rfl
  have hlower : 'z'.val.toNat = 122 := rfl
  omega

theorem isAscii_isDigit : IsAscii Char.isDigit := fun _ hc => Nat.lt_of_le_of_lt (digit_bounds hc).2 (by decide)

theorem toUpper_ascii : ∀ n < 128, (Char.ofNat n).isAlpha = true →
    65 ≤ (Char.ofNat n).toUpper.toNat ∧ (Char.ofNat n).toUpper.toNat ≤ 90 := by decide

/-- A letter in capitals is the letter of its value. -/
theorem letterOf_of_isAlpha {c : Char} (h : c.isAlpha = true) :
    letterValue c ≤ 26 ∧ letterOf (letterValue c - 1) = c.toUpper := by
  have hupper := toUpper_ascii c.toNat (isAscii_isAlpha c h)
  rw [Char.ofNat_toNat] at hupper
  have hbounds := hupper h
  have hvalue : letterValue c = c.toUpper.toNat - 65 + 1 := rfl
  have hcode : 65 + (c.toUpper.toNat - 65) = c.toUpper.toNat := by omega
  refine ⟨by omega, ?_⟩
  rw [hvalue, Nat.add_sub_cancel, letterOf]
  show Char.ofNat (65 + (c.toUpper.toNat - 65)) = _
  rw [hcode, Char.ofNat_toNat]

/-- One more letter behind those of a column. -/
theorem letterList_next (column : Nat) {c : Char} (h : c.isAlpha = true) :
    letterList (26 * column + letterValue c) = letterList column ++ [c.toUpper] := by
  obtain ⟨hle, hletter⟩ := letterOf_of_isAlpha h
  have hpos : 1 ≤ letterValue c := Nat.succ_le_succ (Nat.zero_le _)
  have hquotient : (26 * column + letterValue c - 1) / 26 = column := by omega
  have hremainder : (26 * column + letterValue c - 1) % 26 = letterValue c - 1 := by omega
  rw [letterList_eq (by omega), hquotient, hremainder, hletter]

theorem letterList_lettersBehind {cs : List Char} (h : ∀ c ∈ cs, c.isAlpha = true) (column : Nat) :
    letterList (lettersBehind column cs) = letterList column ++ cs.map Char.toUpper := by
  induction cs generalizing column with
  | nil => exact (List.append_nil _).symm
  | cons c cs ih =>
    rw [lettersBehind_cons, ih (fun d hd => h d (List.mem_cons_of_mem c hd)), letterList_next column (h c List.mem_cons_self),
      List.append_assoc, List.map_cons, List.singleton_append]

/-- **What letters are worth is written with these letters**, in capitals. -/
theorem letterList_lettersValue {cs : List Char} (h : ∀ c ∈ cs, c.isAlpha = true) :
    letterList (lettersValue cs) = cs.map Char.toUpper := by
  rw [← lettersBehind_zero, letterList_lettersBehind h, letterList, dif_pos rfl, List.nil_append]

/-! ### Addresses -/

namespace Address

theorem rowOfDigits?_eq (ds : List Char) :
    rowOfDigits? ds = if 1 ≤ digitsValue ds ∧ digitsValue ds ≤ lastLine then some (digitsValue ds) else none := by
  have hvalue : ds.foldl (fun n d => 10 * n + (d.toNat - '0'.toNat)) 0 = digitsValue ds := by
    rw [foldl_eq_placeValue 10 fun d => d.toNat - '0'.toNat, Nat.mul_zero, Nat.zero_add]
    rfl
  unfold rowOfDigits?
  dsimp only
  rw [hvalue]

/-- The text `[$]letters[$]digits` of an address, whether or not the letters are capitals and the digits begin with
zeros. -/
structure IsTextOf (cs : List Char) (a : Address) (letters digits : List Char) : Prop where
  split : cs = marker a.colFixed ++ (letters ++ (marker a.rowFixed ++ digits))
  letters_ne : letters ≠ []
  isAlpha : ∀ c ∈ letters, c.isAlpha = true
  digits_ne : digits ≠ []
  isDigit : ∀ c ∈ digits, c.isDigit = true
  col : a.col = lettersValue letters
  row : a.row = digitsValue digits

theorem spells_iff {cs letters digits : List Char} {a : Address} :
    Spells cs a letters digits ↔ IsTextOf cs a letters digits ∧ a.isWithin lastLine lastLine = true := by
  constructor
  · intro h
    have hcol := h.col
    have hrow := h.row
    rw [readLetters_eq h.isAlpha (Nat.zero_le _), lettersBehind_zero] at hcol
    rw [rowOfDigits?_eq] at hrow
    obtain ⟨hcol', hcol⟩ := Option.ite_none_right_eq_some.mp hcol
    obtain ⟨hrow', hrow⟩ := Option.ite_none_right_eq_some.mp hrow
    have hpos : 1 ≤ lettersValue letters := one_le_lettersValue h.letters_ne
    refine ⟨⟨h.split, h.letters_ne, h.isAlpha, h.digits_ne, h.isDigit, (Option.some.inj hcol).symm,
      (Option.some.inj hrow).symm⟩, isWithin_lastLine_iff.mpr ?_⟩
    rw [← Option.some.inj hcol, ← Option.some.inj hrow]
    exact ⟨⟨hpos, hcol'⟩, hrow'⟩
  · rintro ⟨h, hwithin⟩
    obtain ⟨⟨-, hcol⟩, hrow⟩ := isWithin_lastLine_iff.mp hwithin
    rw [h.col] at hcol
    rw [h.row] at hrow
    refine ⟨h.split, h.letters_ne, h.isAlpha, h.digits_ne, h.isDigit, ?_, ?_⟩
    · rw [readLetters_eq h.isAlpha (Nat.zero_le _), lettersBehind_zero, if_pos hcol, h.col]
    · rw [rowOfDigits?_eq, if_pos hrow, h.row]

/-- **The texts of addresses**: those with a column and a row on the grid of 32 bits. -/
theorem parse_eq_ok_iff {s : String} {a : Address} : parse s = .ok a ↔
    ∃ letters digits, IsTextOf s.toList a letters digits ∧ a.isWithin lastLine lastLine = true := by
  refine ⟨fun h => ?_, ?_⟩
  · obtain ⟨letters, digits, hspells⟩ := spells_of_parse h
    exact ⟨letters, digits, spells_iff.mp hspells⟩
  · rintro ⟨letters, digits, htext⟩
    exact parse_of_spells (spells_iff.mpr htext)

/-! ### Reading byte by byte -/

/-- A number in a word of 32 bits; none if it does not fit. -/
def word? (n : Nat) : Option UInt32 := if n < UInt32.size then some (UInt32.ofNat n) else none

/-- Reads the bytes of letters onto a column that was read before. Product and sum are checked. -/
def columnOfBytes? : (column : UInt32) → List UInt8 → Option UInt32
  | column, [] => some column
  | column, x :: xs =>
    if isAsciiOf Char.isAlpha x then
      (word? (column.toNat * 26)).bind fun product =>
        (word? (product.toNat + letterValue (Char.ofNat x.toNat))).bind fun next => columnOfBytes? next xs
    else none

/-- The column that the bytes of a text name. -/
def columnOfText? (s : String) : Option Nat :=
  if s.utf8ByteSize = 0 then none else (columnOfBytes? 0 (bytes s)).map UInt32.toNat

/-- Whether a marker stands at an offset; none stands at the end of the text. -/
def markerAt? (text : String) (i : Nat) : Option Bool :=
  if i < text.utf8ByteSize then (byte? text i).map (isAsciiOf (· == '$')) else some false

/-- Reads a row and puts it behind a column, from an offset up to the end of the text. -/
def scanRow? (text : String) (colFixed : Bool) (col i : Nat) : Option (Except AddressError Address) :=
  (markerAt? text i).bind fun rowFixed =>
    let start := i + rowFixed.toNat
    (skipWhile? text Char.isDigit start).bind fun stop =>
      if stop = start then some (.error (.missingRow text))
      else if stop ≠ text.utf8ByteSize then some (.error (.trailing text))
      else (slice? text start stop).map fun digits =>
        match rowOfDigits? digits.toList with
        | none => .error (.rowOverflow text)
        | some row => .ok ⟨col, row, colFixed, rowFixed⟩

/-- Reads an address byte by byte; there is no answer if a byte is missing or a cut is inside a character. -/
def scan? (text : String) : Option (Except AddressError Address) :=
  if text.utf8ByteSize = 0 then some (.error .empty)
  else
    ((byte? text 0).map (isAsciiOf (· == '$'))).bind fun colFixed =>
      let start := colFixed.toNat
      (skipWhile? text Char.isAlpha start).bind fun stop =>
        if stop = start then some (.error (.missingColumn text))
        else (slice? text start stop).bind fun letters =>
          match columnOfText? letters with
          | none => some (.error (.columnOverflow text))
          | some col => scanRow? text colFixed col stop

theorem word?_eq {n : Nat} : (word? n).map UInt32.toNat = if n ≤ lastLine then some n else none := by
  have hsize : UInt32.size = lastLine + 1 := by decide
  unfold word?
  by_cases hn : n ≤ lastLine
  · rw [if_pos (by omega), if_pos hn, Option.map_some, UInt32.toNat_ofNat_of_lt' (by omega)]
  · rw [if_neg (by omega), if_neg hn, Option.map_none]

theorem word?_of_le {n : Nat} (h : n ≤ lastLine) : ∃ w, word? n = some w ∧ w.toNat = n := by
  have hword := word?_eq (n := n)
  rw [if_pos h] at hword
  exact Option.map_eq_some_iff.mp hword

theorem of_word?_eq_some {n : Nat} {w : UInt32} (h : word? n = some w) : n ≤ lastLine ∧ w.toNat = n := by
  have hword := word?_eq (n := n)
  rw [h, Option.map_some] at hword
  obtain ⟨hle, hvalue⟩ := Option.ite_none_right_eq_some.mp hword.symm
  exact ⟨hle, (Option.some.inj hvalue).symm⟩

/-- Checked words hold the same column as numbers do. -/
theorem columnOfBytes?_eq (cs : List Char) (column : UInt32) :
    (columnOfBytes? column (encode cs)).map UInt32.toNat = readLetters column.toNat cs := by
  induction cs generalizing column with
  | nil => rfl
  | cons c cs ih =>
    by_cases hc : c.isAlpha = true
    · obtain ⟨-, hbytes, hcode⟩ := encode_ascii (isAscii_isAlpha c hc)
      have hchar : Char.ofNat c.val.toUInt8.toNat = c := by rw [hcode, Char.ofNat_toNat]
      rw [encode_cons, hbytes, List.singleton_append, columnOfBytes?, isAsciiOf_ascii (isAscii_isAlpha c hc), if_pos hc,
        hchar, readLetters, if_pos hc]
      dsimp only
      by_cases hnext : 26 * column.toNat + letterValue c ≤ lastLine
      · obtain ⟨product, hproduct, hproduct'⟩ := word?_of_le (n := column.toNat * 26) (by omega)
        obtain ⟨next, hsum, hsum'⟩ := word?_of_le (n := product.toNat + letterValue c) (by omega)
        have hnext' : next.toNat = 26 * column.toNat + letterValue c := by omega
        rw [hproduct, Option.bind_some, hsum, Option.bind_some, ih next, hnext', if_pos hnext]
      · rw [if_neg hnext, Option.map_eq_none_iff, Option.bind_eq_none_iff]
        intro product hproduct
        rw [Option.bind_eq_none_iff]
        intro next hsum
        have hproduct' := (of_word?_eq_some hproduct).2
        have hle := (of_word?_eq_some hsum).1
        omega
    · obtain ⟨x, xs, hx, hbytes⟩ := exists_encode_cons c cs
      rw [hbytes, columnOfBytes?, isAsciiOf_of_mem_encode isAscii_isAlpha hx, if_neg hc, readLetters, if_neg hc]
      rfl

theorem columnOfText?_eq (s : String) : columnOfText? s = column? s := by
  have hempty : s.utf8ByteSize = 0 ↔ s.toList = [] := by rw [utf8ByteSize_eq, byteLength_eq_zero]
  unfold columnOfText? column?
  by_cases hs : s.toList = []
  · rw [if_pos (hempty.mpr hs), if_pos hs]
  · rw [if_neg (fun h => hs (hempty.mp h)), if_neg hs, bytes_eq_encode, columnOfBytes?_eq]
    rfl

theorem byteLength_marker (fixed : Bool) : byteLength (marker fixed) = fixed.toNat := by
  cases fixed <;> rfl

section Scan

variable {text : String} {a b : List Char}

theorem isAscii_marker : IsAscii (· == '$') := by
  intro c hc
  rw [beq_iff_eq.mp hc]
  decide

theorem markerAt?_eq (hs : text.toList = a ++ b) : markerAt? text (byteLength a) = some (splitMarker b).1 := by
  unfold markerAt?
  cases b with
  | nil =>
    have hsize : text.utf8ByteSize = byteLength a := size_of_split hs
    rw [if_neg (Nat.not_lt.mpr (Nat.le_of_eq hsize))]
    rfl
  | cons c b =>
    obtain ⟨x, hx, hbyte⟩ := byte?_head hs
    rw [if_pos (lt_size_of_split hs), hbyte, Option.map_some, isAsciiOf_of_mem_encode isAscii_marker hx]
    by_cases hc : c = '$'
    · rw [hc]
      rfl
    · have hmarker : splitMarker (c :: b) = (false, c :: b) := splitMarker_marker false fun h => hc (Option.some.inj h)
      rw [hmarker, beq_eq_false_iff_ne.mpr hc]

/-- The place behind a marker, if there is one. -/
theorem split_marker (hs : text.toList = a ++ b) :
    text.toList = (a ++ marker (splitMarker b).1) ++ (splitMarker b).2 ∧
      byteLength (a ++ marker (splitMarker b).1) = byteLength a + (splitMarker b).1.toNat := by
  rw [List.append_assoc, marker_append_splitMarker, byteLength_append, byteLength_marker]
  exact ⟨hs, rfl⟩

/-- What a text with a given column reads as, from the characters behind its letters. -/
def readRow (text : String) (colFixed : Bool) (col : Nat) (cs : List Char) : Except AddressError Address :=
  let digits := (splitMarker cs).2.takeWhile Char.isDigit
  if digits = [] then .error (.missingRow text)
  else if (splitMarker cs).2.dropWhile Char.isDigit ≠ [] then .error (.trailing text)
  else
    match rowOfDigits? digits with
    | none => .error (.rowOverflow text)
    | some row => .ok ⟨col, row, colFixed, (splitMarker cs).1⟩

/-- A walk stays where it is exactly if it takes no character, and reaches the end exactly if it leaves none. -/
theorem stop_iff {taken rest : List Char} (hs : text.toList = a ++ (taken ++ rest)) :
    (byteLength a + byteLength taken = byteLength a ↔ taken = []) ∧
      (byteLength a + byteLength taken = text.utf8ByteSize ↔ rest = []) := by
  have hsize := size_of_split hs
  rw [byteLength_append] at hsize
  have htaken : byteLength taken = 0 ↔ taken = [] := byteLength_eq_zero
  have hrest : byteLength rest = 0 ↔ rest = [] := byteLength_eq_zero
  rw [hsize, ← htaken, ← hrest]
  omega

theorem scanRow?_eq (hs : text.toList = a ++ b) (colFixed : Bool) (col : Nat) :
    scanRow? text colFixed col (byteLength a) = some (readRow text colFixed col b) := by
  obtain ⟨hplace, hstart⟩ := split_marker hs
  unfold scanRow? readRow
  rw [markerAt?_eq hs, Option.bind_some]
  dsimp only
  rw [← hstart, skipWhile?_eq isAscii_isDigit hplace, Option.bind_some]
  rw [← List.takeWhile_append_dropWhile (p := Char.isDigit) (l := (splitMarker b).2)] at hplace
  obtain ⟨htaken, hend⟩ := stop_iff hplace
  by_cases hdigits : (splitMarker b).2.takeWhile Char.isDigit = []
  · rw [if_pos (htaken.mpr hdigits), if_pos hdigits]
  · rw [if_neg (mt htaken.mp hdigits), if_neg hdigits]
    by_cases hrest : (splitMarker b).2.dropWhile Char.isDigit = []
    · rw [if_neg (Classical.not_not.mpr (hend.mpr hrest)), if_neg (Classical.not_not.mpr hrest), slice?_of_split hplace,
        Option.map_some, String.toList_ofList]
    · rw [if_pos (mt hend.mp hrest), if_pos hrest]

end Scan

/-- **An address can be read byte by byte**: no byte is asked for that the text does not have, and the text is only
cut between characters. -/
theorem scan?_eq (text : String) : scan? text = some (parse text) := by
  have hempty : text.utf8ByteSize = 0 ↔ text.toList = [] := by rw [utf8ByteSize_eq, byteLength_eq_zero]
  unfold scan? parse
  dsimp only
  by_cases hnil : text.toList = []
  · rw [if_pos (hempty.mpr hnil), if_pos hnil]
  · have hs : text.toList = [] ++ text.toList := rfl
    have hpos : byteLength [] < text.utf8ByteSize := Nat.pos_of_ne_zero (mt hempty.mp hnil)
    have hfirst := markerAt?_eq hs
    rw [markerAt?, if_pos hpos] at hfirst
    have hfirst : (byte? text 0).map (isAsciiOf (· == '$')) = some (splitMarker text.toList).1 := hfirst
    obtain ⟨hplace, hstart⟩ := split_marker hs
    have hstart : byteLength ([] ++ marker (splitMarker text.toList).1) = (splitMarker text.toList).1.toNat :=
      hstart.trans (Nat.zero_add _)
    have hstop := skipWhile?_eq isAscii_isAlpha hplace
    rw [← List.takeWhile_append_dropWhile (p := Char.isAlpha) (l := (splitMarker text.toList).2)] at hplace
    have hbehind := hplace.trans (List.append_assoc _ _ _).symm
    rw [if_neg (mt hempty.mp hnil), if_neg hnil]
    rw [hfirst, Option.bind_some, ← hstart, hstop, Option.bind_some]
    by_cases hletters : (splitMarker text.toList).2.takeWhile Char.isAlpha = []
    · rw [if_pos ((stop_iff hplace).1.mpr hletters), if_pos hletters]
    · have hcolumn := columnOfText?_eq (String.ofList ((splitMarker text.toList).2.takeWhile Char.isAlpha))
      rw [column?, String.toList_ofList, if_neg hletters] at hcolumn
      rw [if_neg (mt (stop_iff hplace).1.mp hletters), if_neg hletters, slice?_of_split hplace, Option.bind_some, hcolumn]
      cases readLetters 0 ((splitMarker text.toList).2.takeWhile Char.isAlpha) with
      | none => rfl
      | some col =>
        dsimp only
        rw [← byteLength_append, scanRow?_eq hbehind]
        rfl

/-- Letters beyond the last column are reported, wherever they end. -/
theorem parse_eq_columnOverflow_iff {s : String} : parse s = .error (.columnOverflow s) ↔
    ∃ fixed letters rest, s.toList = marker fixed ++ (letters ++ rest) ∧ letters ≠ [] ∧ (∀ c ∈ letters, c.isAlpha = true) ∧
      (∀ c ∈ rest.head?, c.isAlpha = false) ∧ lastLine < lettersValue letters := by
  constructor
  · intro h
    refine ⟨(splitMarker s.toList).1, (splitMarker s.toList).2.takeWhile Char.isAlpha,
      (splitMarker s.toList).2.dropWhile Char.isAlpha, ?_, ?_⟩
    · rw [List.takeWhile_append_dropWhile, marker_append_splitMarker]
    · have halpha := List.all_eq_true.mp (List.all_takeWhile (p := Char.isAlpha) (l := (splitMarker s.toList).2))
      unfold parse at h
      dsimp only at h
      split at h
      · cases h
      · split at h
        · cases h
        · next hletters =>
          refine ⟨hletters, halpha, fun c hc => ?_, Nat.lt_of_not_le fun hle => ?_⟩
          · have hhead := List.head?_dropWhile_not Char.isAlpha (splitMarker s.toList).2
            rw [Option.mem_def.mp hc] at hhead
            exact hhead
          · rw [readLetters_eq halpha (Nat.zero_le _), lettersBehind_zero, if_pos hle] at h
            dsimp only at h
            split at h
            · cases h
            · split at h
              · cases h
              · split at h <;> cases h
  · rintro ⟨fixed, letters, rest, hs, hletters, halpha, hend, hlt⟩
    have hnonempty : s.toList ≠ [] := by
      rw [hs]
      simp [hletters]
    unfold parse
    dsimp only
    rw [if_neg hnonempty, hs, splitMarker_marker fixed (head?_letters_ne_marker hletters halpha rest)]
    dsimp only
    rw [takeWhile_append_stop halpha hend, if_neg hletters, readLetters_eq halpha (Nat.zero_le _), lettersBehind_zero,
      if_neg (Nat.not_le.mpr hlt)]

end Address

/-- **Letters and columns, and texts and addresses, correspond to each other.** The letters of a column name this
column. Letters that are worth no more than the last line name what they are worth, whose letters they are but for
the case, and only letters that are worth more name none. An address is read back from its text, markers included.
Among all texts, the texts of addresses are the texts `[$]letters[$]digits` with a column and a row from 1 up to the
last line; the column is reported exactly if letters are worth more than that; and bytes in checked words of 32 bits
are enough to tell. -/
theorem lettersAndAddresses_correspond :
    (∀ column, 1 ≤ column → column ≤ lastLine → column? (columnLetters column) = some column) ∧
      (∀ s : String, s ≠ "" → (∀ c ∈ s.toList, c.isAlpha = true) →
        (lettersValue s.toList ≤ lastLine → column? s = some (lettersValue s.toList) ∧
          columnLetters (lettersValue s.toList) = String.ofList (s.toList.map Char.toUpper)) ∧
        (column? s = none ↔ lastLine < lettersValue s.toList)) ∧
      (∀ a : Address, a.isWithin lastLine lastLine = true → Address.parse a.text = .ok a) ∧
      (∀ s a, Address.parse s = .ok a ↔
        ∃ letters digits, Address.IsTextOf s.toList a letters digits ∧ a.isWithin lastLine lastLine = true) ∧
      (∀ s, Address.parse s = .error (.columnOverflow s) ↔ ∃ fixed letters rest,
        s.toList = Address.marker fixed ++ (letters ++ rest) ∧ letters ≠ [] ∧ (∀ c ∈ letters, c.isAlpha = true) ∧
          (∀ c ∈ rest.head?, c.isAlpha = false) ∧ lastLine < lettersValue letters) ∧
      ∀ s, Address.columnOfText? s = column? s ∧ Address.scan? s = some (Address.parse s) := by
  refine ⟨?_, ?_, fun a => Address.parse_text, fun s a => Address.parse_eq_ok_iff,
    fun s => Address.parse_eq_columnOverflow_iff, fun s => ⟨Address.columnOfText?_eq s, Address.scan?_eq s⟩⟩
  · intro column hpos hle
    rw [column?, columnLetters, String.toList_ofList, if_neg (letterList_ne_nil (by omega)), readLetters_letterList hle]
  · intro s hne hletters
    have hcolumn := column?_eq hne hletters
    refine ⟨fun hle => ⟨hcolumn.trans (if_pos hle), ?_⟩, ?_⟩
    · rw [columnLetters, letterList_lettersValue hletters]
    · rw [hcolumn, ite_eq_right_iff]
      exact ⟨fun h => Nat.lt_of_not_le fun hle => Option.some_ne_none _ (h hle),
        fun hlt hle => absurd hle (Nat.not_le.mpr hlt)⟩

/-- The last column and the letters behind it. -/
theorem lettersAndAddresses_lastLine :
    column? (columnLetters lastLine) = some lastLine ∧ lettersValue "mwlqkwu".toList = lastLine ∧
      columnLetters (lettersValue "mwlqkwu".toList) = "MWLQKWU" ∧ column? "mwlqkwv" = none ∧
      Address.parse (Address.text ⟨lastLine, 1, true, false⟩) = .ok ⟨lastLine, 1, true, false⟩ := by
  obtain ⟨hcolumn, hletters, haddress, -⟩ := lettersAndAddresses_correspond
  have hvalue : lettersValue "mwlqkwu".toList = lastLine := by decide
  have halpha : "mwlqkwu".toList.all Char.isAlpha = true := by decide
  have halpha' : "mwlqkwv".toList.all Char.isAlpha = true := by decide
  refine ⟨hcolumn lastLine (by decide) (by decide), hvalue, ?_, ?_, haddress _ (by decide)⟩
  · exact ((hletters "mwlqkwu" (by decide) (List.all_eq_true.mp halpha)).1 (Nat.le_of_eq hvalue)).2
  · exact (hletters "mwlqkwv" (by decide) (List.all_eq_true.mp halpha')).2.mpr (by decide)

end Grid

end Spreadsheet
