import Mathlib
import Spreadsheet.Proofs.Signs

/-!
# Doubles: their order, and the whole numbers among them

The bits of a positive double hold its mantissa and its exponent and nothing else (`unpack_double`). Two
things follow from the way doubles are taken apart and put together.

* `lt_iff_place` — doubles are ordered as their places on the line are.
* `ofNat_eq_double` — a natural number below `2^53` is a double, so nothing is rounded when it is
  converted (`whole_ofNat`), and numbers of this size keep their order (`ofNat_lt_ofNat`).
-/

namespace Spreadsheet

namespace Numeric

open Float.Model Float.Model.UnpackedFloat

/-! ### Taking doubles apart -/

theorem unpack_packed {m : ℕ} {q : ℤ} (h : IsCanonical m q) (hm : 0 < m) :
    UnpackedFloat.unpack .binary64 (UInt64.ofNat (packed m q)).toBitVec = .finite .positive m q hm := by
  have hlt := packed_lt h
  have hmantissa := h.mantissa
  have hnormal := h.normal
  have hleast := h.least
  have hgreatest := h.greatest
  have hbits : (UInt64.ofNat (packed m q)).toBitVec.toNat = packed m q := by
    show (UInt64.ofNat (packed m q)).toNat = _
    rw [UInt64.toNat_ofNat']
    exact Nat.mod_eq_of_lt (by omega)
  generalize (UInt64.ofNat (packed m q)).toBitVec = b at hbits
  -- the three fields of the word
  have hexponent := toNat_unpackExponent b
  have hfraction : (@unpackMantissa .binary64 b).toNat = b.toNat % 2 ^ 52 := by
    rw [unpackMantissa_def, BitVec.extractLsb'_toNat, Nat.shiftRight_eq_div_pow, pow_zero, Nat.div_one]
  have hsign : @unpackSign .binary64 b = 0#1 := by
    rw [unpackSign_def, ← BitVec.toNat_inj, BitVec.extractLsb'_toNat, Nat.shiftRight_eq_div_pow]
    show b.toNat / 2 ^ 63 % 2 = 0
    omega
  have hfinite : @unpackExponent .binary64 b ≠ -1#11 := by
    rw [Ne, unpackExponent_eq_iff]
    omega
  have hbias : (Format.binary64.exponentBias : ℤ) + (Format.binary64.mantissaBitsWithoutImplicit : ℤ) = 1075 :=
    rfl
  unfold UnpackedFloat.unpack
  rw [if_neg hfinite, hsign]
  unfold packed at hbits
  split at hbits
  · next hsmall =>
    have hzero : @unpackExponent .binary64 b = 0#11 := by
      rw [← BitVec.toNat_inj, hexponent]
      show _ = 0
      omega
    have hne : ¬@unpackMantissa .binary64 b = 0#52 := by
      rw [← BitVec.toNat_inj, hfraction]
      show ¬_ = 0
      omega
    rw [if_pos hzero, dif_neg hne]
    congr 1
    · rw [hfraction]
      omega
    · rw [hexponent, hbias]
      omega
  · next hlarge =>
    have hbiased : b.toNat / 2 ^ 52 % 2 ^ 11 = (q + 1075).toNat := by omega
    have hne : ¬@unpackExponent .binary64 b = 0#11 := by
      rw [← BitVec.toNat_inj, hexponent, hbiased]
      show ¬(q + 1075).toNat = 0
      omega
    rw [if_neg hne]
    congr 1
    · rw [BitVec.toNat_append, ← Nat.shiftLeft_add_eq_or_of_lt (BitVec.isLt _), hfraction]
      show 1 <<< 52 + _ = m
      omega
    · rw [hexponent, hbiased, hbias]
      omega

theorem unpack_double {m : ℕ} {q : ℤ} (h : IsCanonical m q) (hm : 0 < m) :
    (double m q).toModel.unpack = .finite .positive m q hm := by
  have hbits := toBits_double h
  show UnpackedFloat.unpack .binary64 (double m q).toBits.toBitVec = _
  rw [← unpack_packed h hm, ← hbits, UInt64.ofNat_toNat]

theorem pack_eq_double {m : ℕ} {q : ℤ} (h : IsCanonical m q) (hm : 0 < m) :
    Float.ofModel (Float.Model.pack (.finite .positive m q hm)) = double m q := by
  rw [← unpack_packed h hm]
  rfl

/-! ### The order of doubles -/

/-- The place of a number on the line: its side, then its exponent and its mantissa. The two zeros have
one place. -/
def place : UnpackedFloat → ℤ ×ₗ ℤ ×ₗ ℤ
  | .infinity .negative => toLex (-2, toLex (0, 0))
  | .finite .negative m e _ => toLex (-1, toLex (-e, -m))
  | .zero _ | .notANumber => toLex (0, toLex (0, 0))
  | .finite .positive m e _ => toLex (1, toLex (e, m))
  | .infinity .positive => toLex (2, toLex (0, 0))

/-- The place of a double on the line. -/
def placeOf (x : Float) : ℤ ×ₗ ℤ ×ₗ ℤ := place x.toModel.unpack

theorem compare_toLex {α β : Type} [Ord α] [Ord β] (a c : α) (b d : β) :
    compare (toLex (a, b)) (toLex (c, d)) = (compare a c).then (compare b d) := by
  rw [Prod.Lex.compare_def]
  rfl

theorem compare_neg (a b : ℤ) : compare (-a) (-b) = (compare a b).swap := by
  rcases lt_trichotomy a b with h | rfl | h
  · rw [compare_lt_iff_lt.mpr h, compare_gt_iff_gt.mpr (neg_lt_neg h)]
    rfl
  · simp
  · rw [compare_gt_iff_gt.mpr h, compare_lt_iff_lt.mpr (neg_lt_neg h)]
    rfl

theorem compare_natCast (m n : ℕ) : compare (m : ℤ) (n : ℤ) = compare m n := by
  rcases lt_trichotomy m n with h | rfl | h
  · rw [compare_lt_iff_lt.mpr h, compare_lt_iff_lt.mpr (Int.ofNat_lt.mpr h)]
  · simp
  · rw [compare_gt_iff_gt.mpr h, compare_gt_iff_gt.mpr (Int.ofNat_lt.mpr h)]

/-- Numbers are compared by their places on the line. -/
theorem compare_eq_place {a b : UnpackedFloat} (ha : a ≠ .notANumber) (hb : b ≠ .notANumber) :
    a.compare b = some (compare (place a) (place b)) := by
  cases a with
  | notANumber => exact absurd rfl ha
  | infinity s =>
    cases b with
    | notANumber => exact absurd rfl hb
    | infinity t => cases s <;> cases t <;> rfl
    | zero t => cases s <;> rfl
    | finite t m e _ => cases s <;> cases t <;> rfl
  | zero s =>
    cases b with
    | notANumber => exact absurd rfl hb
    | infinity t => cases t <;> rfl
    | zero t => rfl
    | finite t m e _ => cases t <;> rfl
  | finite s m e _ =>
    cases b with
    | notANumber => exact absurd rfl hb
    | infinity t => cases s <;> cases t <;> rfl
    | zero t => cases s <;> rfl
    | finite t n f _ =>
      -- Below zero, the greater exponent and the greater mantissa come first.
      cases s <;> cases t
      all_goals
        simp only [UnpackedFloat.compare, place, compare_toLex, compare_neg, compare_natCast,
          Ordering.swap_then]
      all_goals rfl

theorem lt_iff_place {x y : Float} (hx : x.isNaN = false) (hy : y.isNaN = false) :
    x < y ↔ placeOf x < placeOf y := by
  have hnumber : ∀ {z : Float}, z.isNaN = false → z.toModel.unpack ≠ .notANumber := by
    intro z hz hnan
    have htrue : z.isNaN = true := UnpackedFloat.isNaN_iff.mpr hnan
    rw [hz] at htrue
    cases htrue
  have hlt : x < y ↔ x.toModel.unpack.compare y.toModel.unpack = some .lt := by
    show decide (x.toModel < y.toModel) = true ↔ _
    rw [decide_eq_true_iff]
    exact beq_iff_eq
  rw [hlt, compare_eq_place (hnumber hx) (hnumber hy), Option.some_inj, compare_lt_iff_lt]
  rfl

/-! ### Rounding without a rest -/

theorem repeat_shiftRightOne (m j : ℕ) :
    j.repeat ExtendedMantissa.shiftRightOne ⟨m * 2 ^ j, false, false⟩ = ⟨m, false, false⟩ := by
  induction j generalizing m with
  | zero => rw [pow_zero, mul_one, Nat.repeat]
  | succ j ih =>
    have hm : m * 2 ^ (j + 1) = 2 * m * 2 ^ j := by ring
    rw [Nat.repeat, hm, ih]
    simp [ExtendedMantissa.shiftRightOne]

/-- A mantissa of 53 bits is found again behind any number of binary zeros. -/
theorem shiftToTargetExponent_exact {m : ℕ} {e : ℤ} (h : IsCanonical m e) (hm : 2 ^ 52 ≤ m) (j : ℕ) :
    shiftToTargetExponent .binary64 (m * 2 ^ j) (e - j) .exact = (⟨m, false, false⟩, e) := by
  have hlog : (m * 2 ^ j).log2 = 52 + j := by
    rw [Nat.log2_eq_iff (Nat.pos_iff_ne_zero.mp (by positivity)), pow_add, add_right_comm, pow_add]
    exact ⟨Nat.mul_le_mul_right _ hm, Nat.mul_lt_mul_of_pos_right h.mantissa (by positivity)⟩
  have htarget : Format.binary64.targetExponent (totalExponent (m * 2 ^ j) (e - j)) = e := by
    have hleast : -1074 ≤ e := h.least
    have hbits : (Format.binary64.mantissaBits : ℤ) = 53 := rfl
    have hmin : Format.binary64.minExponent = -1074 := rfl
    unfold totalExponent Format.targetExponent
    rw [hlog, hbits, hmin]
    push_cast
    omega
  have hamount : (e - (e - j)).toNat = j := by omega
  unfold shiftToTargetExponent shiftToExponent
  rw [htarget]
  dsimp only
  rw [hamount, sub_add_cancel]
  exact congrArg (fun em => (em, e)) (repeat_shiftRightOne m j)

theorem roundWithAccuracy_exact {m : ℕ} {e : ℤ} (h : IsCanonical m e) (hm : 2 ^ 52 ≤ m) (hpos : 0 < m) (j : ℕ) :
    roundWithAccuracy .binary64 .positive (m * 2 ^ j) (e - j) .exact = .finite .positive m e hpos := by
  have hsecond := shiftToTargetExponent_exact h hm 0
  rw [pow_zero, mul_one, Nat.cast_zero, sub_zero] at hsecond
  unfold roundWithAccuracy
  rw [shiftToTargetExponent_exact h hm j]
  dsimp only
  rw [show ExtendedMantissa.roundedMantissa ⟨m, false, false⟩ = m from rfl, hsecond]
  exact dif_neg hpos.ne'

/-! ### Whole numbers -/

/-- The binary places that a whole number leaves free in a mantissa. -/
def spare (n : ℕ) : ℕ := 52 - n.log2

section Whole

variable {n : ℕ} (hpos : 0 < n) (h : n < 2 ^ 53)

include hpos h

theorem log2_add_spare : n.log2 + spare n = 52 := by
  have := (Nat.log2_lt hpos.ne').mpr h
  unfold spare
  omega

theorem le_mul_spare : 2 ^ 52 ≤ n * 2 ^ spare n := by
  calc 2 ^ 52 = 2 ^ n.log2 * 2 ^ spare n := by rw [← pow_add, log2_add_spare hpos h]
    _ ≤ n * 2 ^ spare n := Nat.mul_le_mul_right _ (Nat.log2_self_le hpos.ne')

theorem isCanonical_whole : IsCanonical (n * 2 ^ spare n) (-spare n) := by
  have hlow := le_mul_spare hpos h
  have hhigh : n * 2 ^ spare n < 2 ^ 53 := by
    calc n * 2 ^ spare n < 2 ^ (n.log2 + 1) * 2 ^ spare n :=
          Nat.mul_lt_mul_of_pos_right Nat.lt_log2_self (by positivity)
      _ = 2 ^ 53 := by rw [← pow_add, add_right_comm, log2_add_spare hpos h]
  have hspare : spare n ≤ 52 := Nat.sub_le _ _
  exact ⟨hhigh, .inl hlow, by omega, by omega⟩

theorem round_whole : UnpackedFloat.round .binary64 .positive n 0 =
    .finite .positive (n * 2 ^ spare n) (-spare n) (by positivity) := by
  have hspare := log2_add_spare hpos h
  have htarget : Format.binary64.targetExponent (totalExponent n 0) = -spare n := by
    have hbits : (Format.binary64.mantissaBits : ℤ) = 53 := rfl
    have hmin : Format.binary64.minExponent = -1074 := rfl
    unfold totalExponent Format.targetExponent
    rw [hbits, hmin]
    omega
  have hamount : (0 - -(spare n : ℤ)).toNat = spare n := by omega
  have hround := roundWithAccuracy_exact (isCanonical_whole hpos h) (le_mul_spare hpos h) (by positivity) 0
  rw [pow_zero, mul_one, Nat.cast_zero, sub_zero] at hround
  unfold UnpackedFloat.round decreaseExponent
  rw [htarget]
  dsimp only
  rw [hamount, Nat.shiftLeft_eq, zero_sub, hround]

/-- The conversion multiplies by one, which is a double as well. -/
theorem ofNat_eq_double : Float.ofNat n = double (n * 2 ^ spare n) (-spare n) := by
  have hcanonical := isCanonical_whole hpos h
  have hword : n.toUInt64.toNat = n := Nat.mod_eq_of_lt (by omega)
  have hwhole : n.toUInt64.toFloat = double (n * 2 ^ spare n) (-spare n) := by
    rw [← pack_eq_double hcanonical (by positivity), ← round_whole hpos h]
    show Float.ofModel (Float.Model.pack (UnpackedFloat.normalize .binary64 n.toUInt64.toNat 0 .positive)) = _
    rw [hword]
    unfold UnpackedFloat.normalize
    rw [compare_gt_iff_gt.mpr (by omega : (n : ℤ) > 0)]
    rfl
  have hone : double (2 ^ 52) (-52) = Float.ofBits 0x3FF0000000000000 := rfl
  have hcanonicalOne : IsCanonical (2 ^ 52) (-52) := ⟨by norm_num, .inl le_rfl, by norm_num, by norm_num⟩
  have hscale : Float.ofNat n = n.toUInt64.toFloat * Float.ofBits 0x3FF0000000000000 := by
    show Float.ofScientific n false 0 = _
    unfold Float.ofScientific
    rw [dif_pos ⟨h, by omega⟩]
    rfl
  rw [hscale, hwhole, ← hone]
  show Float.ofModel (Float.Model.pack (UnpackedFloat.mul .binary64 _ _)) = _
  rw [unpack_double hcanonical (by positivity), unpack_double hcanonicalOne (by positivity),
    ← pack_eq_double hcanonical (by positivity)]
  unfold UnpackedFloat.mul
  dsimp only
  congr 2
  exact roundWithAccuracy_exact hcanonical (le_mul_spare hpos h) (by positivity) 52

end Whole

/-- **Natural numbers below `2^53` are converted exactly.** -/
theorem whole_ofNat {n : ℕ} (h : n < 2 ^ 53) :
    ∃ b, Binary.ofFloat? (Float.ofNat n) = some b ∧ b.isWhole = true ∧ b.truncate = n := by
  rcases Nat.eq_zero_or_pos n with rfl | hpos
  · exact ⟨⟨false, 0, -1074⟩, by decide +kernel, by decide +kernel, by decide +kernel⟩
  have hexponent : (- -(spare n : ℤ)).toNat = spare n := by omega
  refine ⟨⟨false, n * 2 ^ spare n, -spare n⟩, ?_, ?_, ?_⟩
  · rw [ofNat_eq_double hpos h]
    exact ofFloat?_double (isCanonical_whole hpos h)
  · unfold Binary.isWhole
    rw [hexponent, Nat.pow_eq, Nat.mul_mod_left, beq_self_eq_true, Bool.or_true]
  · have hfloor : Binary.floorAbs ⟨false, n * 2 ^ spare n, -spare n⟩ = n := by
      unfold Binary.floorAbs
      dsimp only
      split
      · next hle =>
        have hzero : spare n = 0 := by omega
        rw [hzero]
        simp
      · rw [hexponent, Nat.pow_eq, Nat.mul_div_cancel _ (by positivity)]
    exact congrArg Int.ofNat hfloor

theorem fractionOf_ofNat {n : ℕ} (h : n < 2 ^ 53) : fractionOf (Float.ofNat n) = 0 := by
  obtain ⟨b, hb, hwhole, -⟩ := whole_ofNat h
  unfold fractionOf
  rw [hb]
  exact if_pos hwhole

theorem truncateToWord_ofNat {n : ℕ} (h : n < 2 ^ 53) : truncateToWord (Float.ofNat n) = Int64.ofInt n := by
  obtain ⟨b, hb, -, htruncate⟩ := whole_ofNat h
  have hmin : min greatestWord (n : ℤ) = n := min_eq_right (by unfold greatestWord; norm_num; omega)
  have hmax : max leastWord (n : ℤ) = n := max_eq_right (by unfold leastWord; norm_num)
  unfold truncateToWord
  rw [hb]
  dsimp only
  rw [htruncate, hmin, hmax]

theorem unpack_ofNat {n : ℕ} (hpos : 0 < n) (h : n < 2 ^ 53) :
    (Float.ofNat n).toModel.unpack = .finite .positive (n * 2 ^ spare n) (-spare n) (by positivity) := by
  rw [ofNat_eq_double hpos h]
  exact unpack_double (isCanonical_whole hpos h) _

theorem isNaN_ofNat {n : ℕ} (h : n < 2 ^ 53) : (Float.ofNat n).isNaN = false := by
  rcases Nat.eq_zero_or_pos n with rfl | hpos
  · decide +kernel
  · show (Float.ofNat n).toModel.unpack.isNaN = false
    rw [unpack_ofNat hpos h]
    rfl

theorem placeOf_ofNat_lt {m n : ℕ} (h : m < n) (hn : n < 2 ^ 53) :
    placeOf (Float.ofNat m) < placeOf (Float.ofNat n) := by
  have hplace : placeOf (Float.ofNat n) = toLex (1, toLex (-(spare n : ℤ), ((n * 2 ^ spare n : ℕ) : ℤ))) := by
    rw [placeOf, unpack_ofNat (by omega) hn]
    rfl
  rcases Nat.eq_zero_or_pos m with rfl | hpos
  · have hzero : placeOf (Float.ofNat 0) = toLex (0, toLex (0, 0)) := by decide +kernel
    rw [hplace, hzero]
    exact Prod.Lex.toLex_lt_toLex.mpr (.inl one_pos)
  · have hm : m < 2 ^ 53 := h.trans hn
    have hlog : m.log2 ≤ n.log2 := (Nat.le_log2 (by omega)).mpr ((Nat.log2_self_le hpos.ne').trans h.le)
    have hspare := log2_add_spare hpos hm
    have hspare' := log2_add_spare (by omega : 0 < n) hn
    rw [hplace, placeOf, unpack_ofNat hpos hm]
    refine Prod.Lex.toLex_lt_toLex.mpr (.inr ⟨rfl, Prod.Lex.toLex_lt_toLex.mpr ?_⟩)
    rcases hlog.lt_or_eq with hlt | heq
    · left
      omega
    · have hequal : spare m = spare n := by omega
      have hmantissa : m * 2 ^ spare n < n * 2 ^ spare n := Nat.mul_lt_mul_of_pos_right h (by positivity)
      rw [hequal]
      exact .inr ⟨rfl, Int.ofNat_lt.mpr hmantissa⟩

/-- Natural numbers below `2^53` keep their order. -/
theorem ofNat_lt_ofNat {m n : ℕ} (h : m < n) (hn : n < 2 ^ 53) : Float.ofNat m < Float.ofNat n :=
  (lt_iff_place (isNaN_ofNat (h.trans hn)) (isNaN_ofNat hn)).mpr (placeOf_ofNat_lt h hn)

theorem not_ofNat_lt_zero {n : ℕ} (h : n < 2 ^ 53) : ¬Float.ofNat n < 0 := by
  rw [show (0 : Float) = Float.ofNat 0 from rfl, lt_iff_place (isNaN_ofNat h) (isNaN_ofNat (by norm_num))]
  rcases Nat.eq_zero_or_pos n with rfl | hpos
  · exact lt_irrefl _
  · exact (placeOf_ofNat_lt hpos h).asymm

end Numeric

end Spreadsheet
