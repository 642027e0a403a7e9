import Spreadsheet.Proofs.Lexing

/-!
# Slicing: the bytes of a text and its characters

A text is stored as bytes, and a character takes up to four of them. Whoever walks over a text byte by byte may
ask for a byte behind its end, or cut it inside a character: `byte?`, `part?` and `slice?` have no answer then.

* `slice?_of_split` — a text can be cut between any two of its characters.
* `isAsciiOf_of_mem_encode` — the byte of an ASCII character is its code, and no byte of another character is a code of
  ASCII. So a test for ASCII characters has the same answer on a character and on each of its bytes.
* `walk_over` — a walk that passes over every byte of a character passes over the character, and `skipWhile?_eq` is
  one such walk.
-/

namespace Spreadsheet.Text

/-- The bytes of a text. -/
def bytes (s : String) : List UInt8 := s.toByteArray.data.toList

/-- The byte of a text at an offset. -/
def byte? (s : String) (offset : Nat) : Option UInt8 := (bytes s)[offset]?

/-- The elements of a list from one index up to another; none if they are out of order or out of the list. -/
def part? {α : Type} (xs : List α) (start stop : Nat) : Option (List α) :=
  if start ≤ stop ∧ stop ≤ xs.length then some ((xs.drop start).take (stop - start)) else none

/-- The text from one byte up to another; none if they are out of order, outside of the text or inside a
character. -/
def slice? (s : String) (start stop : Nat) : Option String :=
  if h : start ≤ stop ∧ String.Pos.Raw.IsValid s ⟨start⟩ ∧ String.Pos.Raw.IsValid s ⟨stop⟩ then
    some (String.extract (s.pos ⟨start⟩ h.2.1) (s.pos ⟨stop⟩ h.2.2))
  else none

/-- Whether a byte is the code of an ASCII character that passes a test. -/
def isAsciiOf (p : Char → Bool) (x : UInt8) : Bool := x.toNat < 128 && p (Char.ofNat x.toNat)

/-! ### Bytes and characters -/

@[simp]
theorem byteLength_eq_zero {cs : List Char} : byteLength cs = 0 ↔ cs = [] := by
  cases cs with
  | nil => exact ⟨fun _ => rfl, fun _ => rfl⟩
  | cons c cs =>
    have hc := c.utf8Size_pos
    exact ⟨fun h => absurd h (by rw [byteLength]; omega), fun h => absurd h (List.cons_ne_nil _ _)⟩

/-- The bytes of some characters. -/
def encode (cs : List Char) : List UInt8 := cs.flatMap String.utf8EncodeChar

@[simp]
theorem encode_nil : encode [] = [] := rfl

theorem encode_cons (c : Char) (cs : List Char) : encode (c :: cs) = String.utf8EncodeChar c ++ encode cs :=
  List.flatMap_cons

theorem encode_append (a b : List Char) : encode (a ++ b) = encode a ++ encode b := List.flatMap_append

theorem length_encode (cs : List Char) : (encode cs).length = byteLength cs := by
  induction cs with
  | nil => rfl
  | cons c cs ih => rw [encode_cons, List.length_append, String.length_utf8EncodeChar, ih, byteLength]

theorem bytes_eq_encode (s : String) : bytes s = encode s.toList := by
  rw [bytes, ← String.utf8Encode_toList, List.utf8Encode, List.toList_data_toByteArray, encode]

theorem utf8ByteSize_eq (s : String) : s.utf8ByteSize = byteLength s.toList := by
  rw [← length_encode, ← bytes_eq_encode, bytes, Array.length_toList]
  rfl

theorem length_bytes (s : String) : (bytes s).length = s.utf8ByteSize := by
  rw [bytes_eq_encode, length_encode, utf8ByteSize_eq]

/-- An ASCII character is one byte. -/
theorem encode_ascii {c : Char} (h : c.toNat < 128) :
    c.utf8Size = 1 ∧ String.utf8EncodeChar c = [c.val.toUInt8] ∧ c.val.toUInt8.toNat = c.toNat := by
  have hsize : c.utf8Size = 1 := Char.utf8Size_eq_one_iff.mpr (UInt32.le_iff_toNat_le.mpr (Nat.le_of_lt_succ h))
  refine ⟨hsize, String.utf8EncodeChar_eq_singleton hsize, ?_⟩
  rw [UInt32.toNat_toUInt8]
  exact Nat.mod_eq_of_lt (Nat.lt_trans h (by decide))

theorem byteLength_singleton {c : Char} (h : c.toNat < 128) : byteLength [c] = 1 := (encode_ascii h).1

theorem le_toNat_or (x : UInt8) {m : UInt8} (h : 128 ≤ m.toNat) : 128 ≤ (x ||| m).toNat := by
  rw [UInt8.toNat_or]
  exact Nat.le_trans h Nat.right_le_or

/-- No byte of a character beyond ASCII is a code of ASCII. -/
theorem le_of_mem_encode {c : Char} (h : 128 ≤ c.toNat) {x : UInt8} (hx : x ∈ String.utf8EncodeChar c) :
    128 ≤ x.toNat := by
  have hsize : c.utf8Size ≠ 1 := fun hone =>
    absurd (UInt32.le_iff_toNat_le.mp (Char.utf8Size_eq_one_iff.mp hone)) (Nat.not_le.mpr h)
  rcases Char.utf8Size_eq c with hone | htwo | hthree | hfour
  · exact absurd hone hsize
  · rw [String.utf8EncodeChar_eq_cons_cons htwo] at hx
    simp only [List.mem_cons, List.not_mem_nil, or_false] at hx
    rcases hx with rfl | rfl <;> exact le_toNat_or _ (by decide)
  · rw [String.utf8EncodeChar_eq_cons_cons_cons hthree] at hx
    simp only [List.mem_cons, List.not_mem_nil, or_false] at hx
    rcases hx with rfl | rfl | rfl <;> exact le_toNat_or _ (by decide)
  · rw [String.utf8EncodeChar_eq_cons_cons_cons_cons hfour] at hx
    simp only [List.mem_cons, List.not_mem_nil, or_false] at hx
    rcases hx with rfl | rfl | rfl | rfl <;> exact le_toNat_or _ (by decide)

/-- A test that only ASCII characters pass. -/
def IsAscii (p : Char → Bool) : Prop := ∀ c, p c = true → c.toNat < 128

theorem isAsciiOf_ascii {p : Char → Bool} {c : Char} (h : c.toNat < 128) : isAsciiOf p c.val.toUInt8 = p c := by
  unfold isAsciiOf
  rw [(encode_ascii h).2.2, Char.ofNat_toNat, decide_eq_true h, Bool.true_and]

theorem isAsciiOf_beyond {p : Char → Bool} {x : UInt8} (h : 128 ≤ x.toNat) : isAsciiOf p x = false := by
  unfold isAsciiOf
  rw [decide_eq_false (Nat.not_lt.mpr h), Bool.false_and]

/-- A test for ASCII characters is passed by every byte of a character exactly if the character passes it. -/
theorem isAsciiOf_of_mem_encode {p : Char → Bool} (hp : IsAscii p) {c : Char} {x : UInt8}
    (hx : x ∈ String.utf8EncodeChar c) : isAsciiOf p x = p c := by
  rcases Nat.lt_or_ge c.toNat 128 with hascii | hbeyond
  · rw [(encode_ascii hascii).2.1] at hx
    rw [List.mem_singleton.mp hx, isAsciiOf_ascii hascii]
  · rw [isAsciiOf_beyond (le_of_mem_encode hbeyond hx)]
    exact (Bool.eq_false_iff.mpr fun hc => absurd (hp c hc) (Nat.not_lt.mpr hbeyond)).symm

theorem exists_encode_cons (c : Char) (cs : List Char) :
    ∃ x xs, x ∈ String.utf8EncodeChar c ∧ encode (c :: cs) = x :: xs := by
  obtain ⟨x, xs, hx⟩ := List.exists_cons_of_length_pos
    (Nat.lt_of_lt_of_eq c.utf8Size_pos (String.length_utf8EncodeChar c).symm)
  refine ⟨x, xs ++ encode cs, ?_, ?_⟩
  · rw [hx]
    exact List.mem_cons_self
  · rw [encode_cons, hx, List.cons_append]

theorem exists_encode_concat (cs : List Char) (c : Char) :
    ∃ xs x, x ∈ String.utf8EncodeChar c ∧ encode (cs ++ [c]) = xs ++ [x] := by
  have hne : String.utf8EncodeChar c ≠ [] :=
    List.ne_nil_of_length_pos (Nat.lt_of_lt_of_eq c.utf8Size_pos (String.length_utf8EncodeChar c).symm)
  refine ⟨encode cs ++ (String.utf8EncodeChar c).dropLast, (String.utf8EncodeChar c).getLast hne, List.getLast_mem hne, ?_⟩
  rw [encode_append, encode_cons, encode_nil, List.append_nil, List.append_assoc, List.dropLast_concat_getLast]

/-- A part between two others. -/
theorem part?_append {α : Type} (a b c : List α) : part? (a ++ (b ++ c)) a.length (a.length + b.length) = some b := by
  have hin : a.length ≤ a.length + b.length ∧ a.length + b.length ≤ (a ++ (b ++ c)).length := by
    rw [List.length_append, List.length_append]
    omega
  rw [part?, if_pos hin, List.drop_left, Nat.add_sub_cancel_left, List.take_left]

/-! ### Places in a text -/

section Split

variable {s : String} {a b : List Char} {c : Char}

theorem size_of_split (hs : s.toList = a ++ b) : s.utf8ByteSize = byteLength a + byteLength b := by
  rw [utf8ByteSize_eq, hs, byteLength_append]

theorem lt_size_of_split (hs : s.toList = a ++ c :: b) : byteLength a < s.utf8ByteSize := by
  have hc := c.utf8Size_pos
  rw [size_of_split hs, byteLength]
  omega

/-- The bytes of a character are found where the character stands. -/
theorem byte?_of_split (hs : s.toList = a ++ c :: b) {j : Nat} (hj : j < c.utf8Size) :
    ∃ x ∈ String.utf8EncodeChar c, byte? s (byteLength a + j) = some x := by
  have hlength : j < (String.utf8EncodeChar c).length := by rwa [String.length_utf8EncodeChar]
  refine ⟨_, List.getElem_mem hlength, ?_⟩
  rw [byte?, bytes_eq_encode, hs, encode_append, encode_cons, ← length_encode a,
    List.getElem?_append_right (Nat.le_add_right _ _), Nat.add_sub_cancel_left, List.getElem?_append_left hlength,
    List.getElem?_eq_getElem hlength]

/-- The first byte of a character is found where the character stands. -/
theorem byte?_head (hs : s.toList = a ++ c :: b) :
    ∃ x ∈ String.utf8EncodeChar c, byte? s (byteLength a) = some x :=
  byte?_of_split hs c.utf8Size_pos

theorem size_ofList (cs : List Char) : (String.ofList cs).utf8ByteSize = byteLength cs := by
  rw [utf8ByteSize_eq, String.toList_ofList]

/-- A text can be cut before any of its characters, and at its end. -/
theorem isValid_of_split (hs : s.toList = a ++ b) : String.Pos.Raw.IsValid s ⟨byteLength a⟩ := by
  refine String.Pos.Raw.isValid_iff_exists_append.mpr ⟨String.ofList a, String.ofList b, ?_, ?_⟩
  · rw [← String.ofList_append, ← hs, String.ofList_toList]
  · rw [String.rawEndPos, size_ofList]

/-- **A text can be cut between any two of its characters.** -/
theorem slice?_of_split {d : List Char} (hs : s.toList = a ++ (b ++ d)) :
    slice? s (byteLength a) (byteLength a + byteLength b) = some (String.ofList b) := by
  have hstop : String.Pos.Raw.IsValid s ⟨byteLength a + byteLength b⟩ := by
    rw [← byteLength_append]
    exact isValid_of_split (hs.trans (List.append_assoc a b d).symm)
  have hparts : s.toByteArray =
      (String.ofList a).toByteArray ++ ((String.ofList b).toByteArray ++ (String.ofList d).toByteArray) := by
    rw [← String.toByteArray_append, ← String.toByteArray_append, ← String.ofList_append, ← String.ofList_append, ← hs,
      String.ofList_toList]
  have hsize : ∀ cs : List Char, byteLength cs = (String.ofList cs).toByteArray.size := fun cs => (size_ofList cs).symm
  have hbehind := ByteArray.extract_append_size_add (a := (String.ofList a).toByteArray)
    (b := (String.ofList b).toByteArray ++ (String.ofList d).toByteArray) (i := 0)
    (j := (String.ofList b).toByteArray.size)
  rw [ByteArray.extract_append_eq_left rfl, ← hparts, Nat.add_zero, ← hsize, ← hsize] at hbehind
  unfold slice?
  rw [dif_pos ⟨Nat.le_add_right _ _, isValid_of_split hs, hstop⟩]
  exact congrArg some (String.toByteArray_inj.mp hbehind)

/-- A part of a text lies in it, with both ends between characters. -/
theorem slice?_eq_some {start stop : Nat} {piece : String} (h : slice? s start stop = some piece) :
    start ≤ stop ∧ stop ≤ s.utf8ByteSize ∧ String.Pos.Raw.IsValid s ⟨start⟩ ∧ String.Pos.Raw.IsValid s ⟨stop⟩ := by
  unfold slice? at h
  split at h
  · next hin => exact ⟨hin.1, hin.2.2.le_rawEndPos, hin.2⟩
  · cases h

/-- The text from any of its characters on. -/
theorem slice?_end (hs : s.toList = a ++ b) : slice? s (byteLength a) s.utf8ByteSize = some (String.ofList b) := by
  rw [size_of_split hs]
  exact slice?_of_split (hs.trans (congrArg (a ++ ·) (List.append_nil b).symm))

/-- The bytes of characters are found where the characters stand. -/
theorem part?_of_split {d : List Char} (hs : s.toList = a ++ (b ++ d)) :
    part? (bytes s) (byteLength a) (byteLength a + byteLength b) = some (encode b) := by
  rw [bytes_eq_encode, hs, encode_append, encode_append, ← length_encode a, ← length_encode b]
  exact part?_append _ _ _

/-- A walk that passes over every byte of a character passes over the character. -/
theorem walk_over {α : Type} {f : Nat → α} (hs : s.toList = a ++ c :: b)
    (hf : ∀ k, byteLength a ≤ k → k < s.utf8ByteSize → ∀ x ∈ String.utf8EncodeChar c, byte? s k = some x → f k = f (k + 1)) :
    f (byteLength a) = f (byteLength (a ++ [c])) := by
  have hstop : byteLength (a ++ [c]) = byteLength a + c.utf8Size := byteLength_append a [c]
  have hsize : s.utf8ByteSize = byteLength a + (c.utf8Size + byteLength b) := size_of_split hs
  have hpasses : ∀ j ≤ c.utf8Size, f (byteLength a) = f (byteLength a + j) := by
    intro j
    induction j with
    | zero => exact fun _ => rfl
    | succ j ih =>
      intro hj
      obtain ⟨x, hx, hbyte⟩ := byte?_of_split hs (Nat.lt_of_succ_le hj)
      rw [ih (Nat.le_of_succ_le hj)]
      exact hf _ (Nat.le_add_right _ _) (by omega) x hx hbyte
  rw [hstop]
  exact hpasses _ (Nat.le_refl _)

/-- The byte of an ASCII character is found where the character stands. -/
theorem byte?_ascii (hs : s.toList = a ++ c :: b) (hc : c.toNat < 128) :
    byte? s (byteLength a) = some c.val.toUInt8 := by
  obtain ⟨x, hx, hbyte⟩ := byte?_head hs
  rw [(encode_ascii hc).2.1] at hx
  rw [hbyte, List.mem_singleton.mp hx]

end Split

/-! ### Walks over bytes -/

section Walk

variable {s : String} {a b : List Char}

/-- The end of the bytes from an offset on that are characters of a kind. -/
def skipWhile? (s : String) (p : Char → Bool) (i : Nat) : Option Nat :=
  if i < s.utf8ByteSize then
    match byte? s i with
    | none => none
    | some x => if isAsciiOf p x then skipWhile? s p (i + 1) else some i
  else some i
termination_by s.utf8ByteSize - i

theorem skipWhile?_of_byte {p : Char → Bool} {i : Nat} {x : UInt8} (hi : i < s.utf8ByteSize) (hx : byte? s i = some x) :
    skipWhile? s p i = if isAsciiOf p x then skipWhile? s p (i + 1) else some i := by
  rw [skipWhile?, if_pos hi, hx]

theorem skipWhile?_eq {p : Char → Bool} (hp : IsAscii p) (hs : s.toList = a ++ b) :
    skipWhile? s p (byteLength a) = some (byteLength a + byteLength (b.takeWhile p)) := by
  induction b generalizing a with
  | nil =>
    have hsize : s.utf8ByteSize = byteLength a := size_of_split hs
    rw [skipWhile?, if_neg (Nat.not_lt.mpr (Nat.le_of_eq hsize))]
    rfl
  | cons c b ih =>
    by_cases hc : p c = true
    · rw [walk_over (f := skipWhile? s p) hs fun k _ hk x hx hbyte => by
        rw [skipWhile?_of_byte hk hbyte, isAsciiOf_of_mem_encode hp hx, if_pos hc]]
      rw [ih (hs.trans (List.append_cons a c b)), List.takeWhile_cons_of_pos hc, byteLength_append, Nat.add_assoc]
      rfl
    · obtain ⟨x, hx, hbyte⟩ := byte?_head hs
      rw [skipWhile?_of_byte (lt_size_of_split hs) hbyte, isAsciiOf_of_mem_encode hp hx, if_neg hc,
        List.takeWhile_cons_of_neg hc]
      rfl

end Walk

end Spreadsheet.Text
