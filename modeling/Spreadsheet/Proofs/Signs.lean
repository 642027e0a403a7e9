import Mathlib
import Spreadsheet.Proofs.Numerals

/-!
# Signs: negative numbers are read back from their texts

A finite double is not negative, or it is the negation of one that is not, and negating a double flips one
bit (`toBits_neg`). So what is known of the texts of numbers that are not negative carries over: a negative
number is written as its absolute value behind a minus (`text_neg`), and the minus negates what is read
(`read_minus`). Only zero is written without a sign (`text_neg_zero`).

The main statement is `Locale.readNumber_text`: in the built-in locales every finite number comes back from
its text, a negative zero as zero.
-/

namespace Spreadsheet

namespace Numeric

/-! ### The sign bit -/

open Float.Model Float.Model.UnpackedFloat

/-- The bit of a double that holds its sign. -/
def signBit : BitVec 64 := BitVec.ofNat 64 (2 ^ 63)

theorem unpackExponent_flip (b : BitVec 64) :
    @unpackExponent .binary64 (b ^^^ signBit) = @unpackExponent .binary64 b := by
  rw [unpackExponent_def, unpackExponent_def, BitVec.extractLsb'_xor]
  exact BitVec.xor_zero

/-- Flipping the sign bit negates a double. -/
theorem unpack_flip (b : BitVec 64) :
    UnpackedFloat.unpack .binary64 (b ^^^ signBit) = (UnpackedFloat.unpack .binary64 b).neg := by
  have hmantissa : @unpackMantissa .binary64 (b ^^^ signBit) = @unpackMantissa .binary64 b := by
    rw [unpackMantissa_def, unpackMantissa_def, BitVec.extractLsb'_xor]
    exact BitVec.xor_zero
  have hsign : Sign.ofBitVec (@unpackSign .binary64 (b ^^^ signBit)) =
      -Sign.ofBitVec (@unpackSign .binary64 b) := by
    rw [unpackSign_def, unpackSign_def, BitVec.extractLsb'_xor]
    rcases BitVec.eq_zero_or_eq_one (BitVec.extractLsb' (52 + 11) 1 b) with h | h <;> rw [h] <;> rfl
  unfold UnpackedFloat.unpack
  simp only [hmantissa, unpackExponent_flip, hsign]
  split
  · split <;> rfl
  · split
    · split <;> rfl
    · rfl

theorem toNat_unpackExponent (b : BitVec 64) :
    (@unpackExponent .binary64 b).toNat = b.toNat / 2 ^ 52 % 2 ^ 11 := by
  rw [unpackExponent_def, BitVec.extractLsb'_toNat, Nat.shiftRight_eq_div_pow]

theorem unpackExponent_eq_iff (b : BitVec 64) :
    @unpackExponent .binary64 b = -1#11 ↔ b.toNat / 2 ^ 52 % 2 ^ 11 = 2047 := by
  rw [← BitVec.toNat_inj, toNat_unpackExponent]
  exact Iff.rfl

/-- A double is finite exactly if the bits of its exponent are not all set. -/
theorem isFinite_iff (x : Float) : x.isFinite = true ↔ x.toBits.toNat / 2 ^ 52 % 2 ^ 11 ≠ 2047 := by
  rw [ne_eq, ← show x.toBits.toBitVec.toNat = x.toBits.toNat from rfl, ← unpackExponent_eq_iff]
  show (UnpackedFloat.unpack .binary64 x.toBits.toBitVec).isFinite = true ↔ _
  unfold UnpackedFloat.unpack
  dsimp only
  split
  · next h => exact iff_of_false (by split <;> exact Bool.false_ne_true) (not_not_intro h)
  · next h =>
    refine iff_of_true ?_ h
    split
    · split <;> rfl
    · rfl

/-- Negating a finite double flips its sign bit. -/
theorem toBits_neg {x : Float} (h : x.isFinite = true) :
    (-x).toBits.toBitVec = x.toBits.toBitVec ^^^ signBit := by
  have hnumber : ¬@isNaNBits .binary64 (x.toBits.toBitVec ^^^ signBit) = true := by
    intro hnan
    have hexponent := (of_decide_eq_true hnan).1
    rw [unpackExponent_flip, unpackExponent_eq_iff] at hexponent
    exact (isFinite_iff x).mp h hexponent
  have hpack := @pack_unpack .binary64 (x.toBits.toBitVec ^^^ signBit)
  rw [if_neg hnumber, unpack_flip] at hpack
  exact hpack

/-- The bits of a double with its sign bit flipped. -/
theorem toNat_flip (b : BitVec 64) :
    (b ^^^ signBit).toNat = if b.toNat < 2 ^ 63 then b.toNat + 2 ^ 63 else b.toNat - 2 ^ 63 := by
  have hlow : (BitVec.extractLsb' 0 63 (b ^^^ signBit)).toNat = (BitVec.extractLsb' 0 63 b).toNat := by
    rw [BitVec.extractLsb'_xor]
    exact congrArg BitVec.toNat BitVec.xor_zero
  have hhigh : BitVec.extractLsb' 63 1 (b ^^^ signBit) = BitVec.extractLsb' 63 1 b ^^^ 1#1 := by
    rw [BitVec.extractLsb'_xor]
    rfl
  have htop : (BitVec.extractLsb' 63 1 (b ^^^ signBit)).toNat =
      1 - (BitVec.extractLsb' 63 1 b).toNat := by
    rw [hhigh]
    rcases BitVec.eq_zero_or_eq_one (BitVec.extractLsb' 63 1 b) with h | h <;> rw [h] <;> rfl
  rw [BitVec.extractLsb'_toNat, BitVec.extractLsb'_toNat, Nat.shiftRight_eq_div_pow,
    Nat.shiftRight_eq_div_pow] at hlow htop
  have hb := b.isLt
  have hflip := (b ^^^ signBit).isLt
  split <;> omega

theorem isFinite_neg {x : Float} (h : x.isFinite = true) : (-x).isFinite = true := by
  rw [isFinite_iff, ← show (-x).toBits.toBitVec.toNat = (-x).toBits.toNat from rfl, ← toNat_unpackExponent,
    toBits_neg h, unpackExponent_flip, toNat_unpackExponent]
  exact (isFinite_iff x).mp h

theorem neg_neg_of_isFinite {x : Float} (h : x.isFinite = true) : - -x = x := by
  have hbits : (- -x).toBits = x.toBits := by
    apply UInt64.toBitVec_inj.mp
    rw [toBits_neg (isFinite_neg h), toBits_neg h, BitVec.xor_assoc, BitVec.xor_self, BitVec.xor_zero]
  rw [← Float.ofBits_toBits (- -x), hbits, Float.ofBits_toBits]

/-- A finite double is not negative, or the negation of one that is not. -/
theorem isUnsigned_or_neg {x : Float} (h : x.isFinite = true) :
    IsUnsigned x ∨ ∃ y, IsUnsigned y ∧ x = -y := by
  have hunsigned : ∀ y : Float, y.isFinite = true → y.toBits.toNat < 2 ^ 63 → IsUnsigned y := by
    intro y hy hlt
    rw [isFinite_iff] at hy
    have hbits := isUnsigned_ofBits (n := y.toBits.toNat) (by omega)
    rwa [UInt64.ofNat_toNat, Float.ofBits_toBits] at hbits
  by_cases hlt : x.toBits.toNat < 2 ^ 63
  · exact Or.inl (hunsigned x h hlt)
  · refine Or.inr ⟨-x, hunsigned (-x) (isFinite_neg h) ?_, (neg_neg_of_isFinite h).symm⟩
    have hflip := toNat_flip x.toBits.toBitVec
    rw [← toBits_neg h, if_neg (show ¬x.toBits.toBitVec.toNat < 2 ^ 63 from hlt)] at hflip
    have hx : x.toBits.toBitVec.toNat < 2 ^ 64 := x.toBits.toBitVec.isLt
    show (-x).toBits.toBitVec.toNat < 2 ^ 63
    omega

theorem isFinite_double {m : ℕ} {q : ℤ} (h : IsCanonical m q) : (double m q).isFinite = true := by
  have hlt := packed_lt h
  rw [isFinite_iff, double, toBits_ofBits hlt]
  omega

theorem toBits_double {m : ℕ} {q : ℤ} (h : IsCanonical m q) : (double m q).toBits.toNat = packed m q :=
  toBits_ofBits (packed_lt h)

/-- The parts of a negative double are those of its absolute value. -/
theorem ofFloat?_neg_double {m : ℕ} {q : ℤ} (h : IsCanonical m q) :
    Binary.ofFloat? (-double m q) = some ⟨true, m, q⟩ := by
  have hlt := packed_lt h
  have hbits : (-double m q).toBits.toNat = packed m q + 2 ^ 63 := by
    have hflip := toNat_flip (double m q).toBits.toBitVec
    rw [← toBits_neg (isFinite_double h)] at hflip
    rw [show (double m q).toBits.toBitVec.toNat = packed m q from toBits_double h, if_pos (by omega)] at hflip
    exact hflip
  have hparts := ofFloat?_double h
  unfold Binary.ofFloat? at hparts ⊢
  simp only [toBits_double h, hbits, Nat.pow_eq] at hparts ⊢
  have hbiased : (packed m q + 2 ^ 63) / 2 ^ 52 % 2 ^ 11 = packed m q / 2 ^ 52 % 2 ^ 11 := by omega
  have hfraction : (packed m q + 2 ^ 63) % 2 ^ 52 = packed m q % 2 ^ 52 := by omega
  have hsign : ((packed m q + 2 ^ 63) / 2 ^ 63 == 1) = true := by
    rw [beq_iff_eq]
    omega
  rw [hbiased, hfraction, hsign]
  split at hparts
  · cases hparts
  next hfinite =>
  rw [if_neg hfinite]
  split at hparts
  · next hzero =>
    obtain ⟨-, hm, hq⟩ := Binary.mk.inj (Option.some.inj hparts)
    rw [if_pos hzero, hm, hq]
  · next hnormal =>
    obtain ⟨-, hm, hq⟩ := Binary.mk.inj (Option.some.inj hparts)
    rw [if_neg hnormal, hm, hq]

/-- A finite double equals itself. -/
theorem beq_self_of_isFinite {x : Float} (h : x.isFinite = true) : (x == x) = true := by
  show ((UnpackedFloat.unpack .binary64 x.toBits.toBitVec).compare
    (UnpackedFloat.unpack .binary64 x.toBits.toBitVec) == some .eq) = true
  have hnumber : (UnpackedFloat.unpack .binary64 x.toBits.toBitVec).isFinite = true := h
  revert hnumber
  cases UnpackedFloat.unpack .binary64 x.toBits.toBitVec with
  | infinity s => exact fun hnumber => by cases hnumber
  | notANumber => exact fun hnumber => by cases hnumber
  | zero s => exact fun _ => rfl
  | finite s m e hm =>
    intro _
    cases s <;> simp [UnpackedFloat.compare]


/-! ### Texts of negative numbers -/

theorem floorAbs_pos {m : ℕ} {q : ℤ} (hm : 0 < m) (h : Binary.isWhole ⟨false, m, q⟩ = true) :
    0 < Binary.floorAbs ⟨false, m, q⟩ := by
  unfold Binary.isWhole at h
  unfold Binary.floorAbs
  dsimp only at h ⊢
  split
  · exact Nat.mul_pos hm (Nat.pow_pos (by decide))
  · next hq =>
    rw [decide_eq_false hq, Bool.false_or, beq_iff_eq] at h
    have hdivides := Nat.dvd_of_mod_eq_zero h
    exact Nat.div_pos (Nat.le_of_dvd hm hdivides) (Nat.pow_pos (by decide))

/-- A negative number is written as its absolute value behind a sign. -/
theorem text_neg {m : ℕ} {q : ℤ} (h : IsCanonical m q) (hm : 0 < m) (mark : Char) :
    (text (-double m q) mark).toList = '-' :: (text (double m q) mark).toList := by
  unfold text
  rw [ofFloat?_double h, ofFloat?_neg_double h]
  dsimp only
  rw [show Binary.isWhole ⟨true, m, q⟩ = Binary.isWhole ⟨false, m, q⟩ from rfl,
    show Binary.floorAbs ⟨true, m, q⟩ = Binary.floorAbs ⟨false, m, q⟩ from rfl]
  split
  · next hwhole =>
    rw [Bool.and_eq_true] at hwhole
    obtain ⟨n, hn⟩ := Nat.exists_eq_succ_of_ne_zero (floorAbs_pos hm hwhole.1).ne'
    unfold Binary.truncate Binary.signed
    rw [show Binary.floorAbs ⟨true, m, q⟩ = Binary.floorAbs ⟨false, m, q⟩ from rfl, hn]
    rw [if_pos rfl, if_neg Bool.false_ne_true]
    exact String.toList_append
  · unfold plainText text.withMark
    rw [ofFloat?_double h, ofFloat?_neg_double h]
    dsimp only
    rw [if_pos rfl, if_neg Bool.false_ne_true, String.toList_ofList, String.toList_ofList, String.toList_ofList,
      String.toList_ofList, List.map_append]
    rfl

/-- Zero is written without a sign. -/
theorem text_neg_zero {q : ℤ} (h : IsCanonical 0 q) (mark : Char) :
    text (-double 0 q) mark = text (double 0 q) mark := by
  have hwhole : ∀ negative, Binary.isWhole ⟨negative, 0, q⟩ = true := fun _ => by simp [Binary.isWhole]
  have hfloor : ∀ negative, Binary.floorAbs ⟨negative, 0, q⟩ = 0 := fun _ => by simp [Binary.floorAbs]
  have htruncate : Binary.truncate ⟨true, 0, q⟩ = Binary.truncate ⟨false, 0, q⟩ := by
    unfold Binary.truncate Binary.signed
    rw [hfloor, hfloor]
    rfl
  unfold text
  rw [ofFloat?_double h, ofFloat?_neg_double h]
  dsimp only
  have hbelow : (true && decide (0 < wholeLimit)) = true := by simp [wholeLimit]
  rw [hwhole, hwhole, hfloor, hfloor, htruncate, if_pos hbelow, if_pos hbelow]

/-- A minus in front of a numeral negates what is read. -/
theorem read_minus {mark c : Char} {cs : List Char} (hc : c.isDigit = true) :
    read mark (String.ofList ('-' :: c :: cs)) = (read mark (String.ofList (c :: cs))).map fun x => -x := by
  have hminus : splitSign ('-' :: c :: cs) = (true, c :: cs) := rfl
  unfold read
  rw [String.toList_ofList, String.toList_ofList, splitSign_of_isDigit hc, hminus]
  dsimp only
  have hnegated : ∀ whole fraction tail : List Char,
      (if whole = [] ∧ fraction = [] then none else do
        let exponent ← readExponent tail
        let magnitude ← ofDigits (whole ++ fraction) (exponent - fraction.length)
        pure (if true = true then -magnitude else magnitude)) =
      (if whole = [] ∧ fraction = [] then none else do
        let exponent ← readExponent tail
        let magnitude ← ofDigits (whole ++ fraction) (exponent - fraction.length)
        pure (if false = true then -magnitude else magnitude)).map fun x => -x := by
    intro whole fraction tail
    split
    · rfl
    cases readExponent tail with
    | none => rfl
    | some exponent =>
      rw [Option.bind_eq_bind, Option.bind_eq_bind, Option.bind_some, Option.bind_some]
      cases ofDigits (whole ++ fraction) (exponent - fraction.length) <;> rfl
  exact hnegated _ _ _

end Numeric

namespace Locale

open Numeric

variable {l : Locale}

/-- A minus in front of the text of a number that is not negative negates what is read. -/
theorem readNumber_minus (hl : l.IsBuiltIn) {x : Float} (hx : IsUnsigned x) {s : String}
    (hs : s.toList = '-' :: (l.numberText x).toList) : l.readNumber s = some (-x) := by
  obtain ⟨n, hproper, hchars, hread⟩ := numeral_of_numberText hl hx
  obtain ⟨c, cs, hcs, hdigit⟩ := hproper.exists_cons l.decimal
  have hlast := hproper.isDigit_getLast? l.decimal
  have htrim : Text.trimBlanks (l.numberText x) = l.numberText x := by
    apply Text.trimBlanks_eq_self <;> rw [hchars]
    · rw [hcs]
      rintro d ⟨⟩
      exact isBlank_eq_false hdigit
    · exact fun d hd => isBlank_eq_false (hlast d hd)
  have htrimMinus : Text.trimBlanks s = s := by
    apply Text.trimBlanks_eq_self <;> rw [hs, hchars]
    · rintro d ⟨⟩
      decide
    · rw [hcs, List.getLast?_cons_cons, ← hcs]
      exact fun d hd => isBlank_eq_false (hlast d hd)
  have htext : l.numberText x = String.ofList (c :: cs) := by rw [← hcs, ← hchars, String.ofList_toList]
  have hminus : s = String.ofList ('-' :: c :: cs) := by rw [← hcs, ← hchars, ← hs, String.ofList_toList]
  unfold readNumber at hread ⊢
  rw [htrim, htext] at hread
  rw [htrimMinus, hminus, read_minus hdigit, hread]
  rfl

/-- **Every finite number is read back from its text**, in either of the built-in locales. A negative zero
comes back without its sign. -/
theorem readNumber_text (hl : l.IsBuiltIn) {x : Float} (hx : x.isFinite = true) :
    ∃ y, l.readNumber (l.numberText x) = some y ∧ (y == x) = true ∧ ((x == 0) = false → y = x) := by
  rcases isUnsigned_or_neg hx with hunsigned | ⟨y, ⟨m, q, hcanonical, rfl⟩, rfl⟩
  · exact ⟨x, readNumber_numberText hl hunsigned, beq_self_of_isFinite hx, fun _ => rfl⟩
  rcases Nat.eq_zero_or_pos m with rfl | hm
  · obtain rfl : q = -1074 := hcanonical.normal.resolve_left (by norm_num)
    have htext : l.numberText (-double 0 (-1074)) = l.numberText (double 0 (-1074)) :=
      text_neg_zero hcanonical l.decimal
    rw [htext, readNumber_numberText hl ⟨0, -1074, hcanonical, rfl⟩, ← zero_eq_double]
    exact ⟨0, rfl, by decide +kernel, fun h => absurd h (by decide +kernel)⟩
  · have htext : (l.numberText (-double m q)).toList = '-' :: (l.numberText (double m q)).toList :=
      text_neg hcanonical hm l.decimal
    exact ⟨-double m q, readNumber_minus hl ⟨m, q, hcanonical, rfl⟩ htext, beq_self_of_isFinite hx,
      fun _ => rfl⟩

/-- The text of a finite number starts with a digit or a minus. -/
theorem numberText_eq_cons (hl : l.IsBuiltIn) {x : Float} (hx : x.isFinite = true) :
    ∃ c cs, (l.numberText x).toList = c :: cs ∧ (c = '-' ∨ c.isDigit = true) := by
  have hunsigned : ∀ y : Float, IsUnsigned y →
      ∃ c cs, (l.numberText y).toList = c :: cs ∧ (c = '-' ∨ c.isDigit = true) := by
    intro y hy
    obtain ⟨n, hproper, hchars, -⟩ := numeral_of_numberText hl hy
    obtain ⟨c, cs, hcs, hdigit⟩ := hproper.exists_cons l.decimal
    exact ⟨c, cs, hchars.trans hcs, Or.inr hdigit⟩
  rcases isUnsigned_or_neg hx with hx | ⟨y, ⟨m, q, hcanonical, rfl⟩, rfl⟩
  · exact hunsigned x hx
  rcases Nat.eq_zero_or_pos m with rfl | hm
  · rw [show l.numberText (-double 0 q) = l.numberText (double 0 q) from text_neg_zero hcanonical l.decimal]
    exact hunsigned _ ⟨0, q, hcanonical, rfl⟩
  · exact ⟨'-', _, text_neg hcanonical hm l.decimal, Or.inl rfl⟩

end Locale

end Spreadsheet
