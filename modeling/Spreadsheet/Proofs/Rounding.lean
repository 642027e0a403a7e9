import Mathlib
import Spreadsheet.Numeric.Decimal

/-!
# Rounding: decimals and the doubles next to them

A finite double that is not negative is `m · 2^q`, and the fractions that are rounded to it form an
interval, `Rounds m q`. Its ends lie half way to the neighbours, and belong to it when `m` is even.

* `nearest_of_rounds` — every fraction of the interval is read as the double.
* `rounds_shortest` — the decimal that is printed lies in the interval.

Both are exact statements about rational numbers; the double itself is only touched through its bits.
-/

namespace Spreadsheet.Numeric

/-! ### Doubles by their bits -/

/-- The mantissas and exponents of finite doubles. -/
structure IsCanonical (m : ℕ) (q : ℤ) : Prop where
  mantissa : m < 2 ^ 53
  normal : 2 ^ 52 ≤ m ∨ q = -1074
  least : -1074 ≤ q
  greatest : q ≤ 971

/-- The bits of the double `m · 2^q`. -/
def packed (m : ℕ) (q : ℤ) : ℕ :=
  if m < 2 ^ 52 then m else (q + 1075).toNat * 2 ^ 52 + (m - 2 ^ 52)

/-- The double `m · 2^q`. -/
def double (m : ℕ) (q : ℤ) : Float := Float.ofBits (UInt64.ofNat (packed m q))

theorem packed_lt {m : ℕ} {q : ℤ} (h : IsCanonical m q) : packed m q < 2047 * 2 ^ 52 := by
  have hm := h.mantissa
  have hq := h.greatest
  unfold packed
  split
  · omega
  · have hexponent : (q + 1075).toNat ≤ 2046 := by omega
    have := Nat.mul_le_mul_right (2 ^ 52) hexponent
    omega

/-- The bits of a double that is finite and not negative are kept. -/
theorem toBits_ofBits {n : ℕ} (h : n < 2047 * 2 ^ 52) :
    (Float.ofBits (UInt64.ofNat n)).toBits.toNat = n := by
  have hvalue : (UInt64.ofNat n).toNat = n := by
    rw [UInt64.toNat_ofNat']
    exact Nat.mod_eq_of_lt (by omega)
  have hnumber : ¬@Float.Model.UnpackedFloat.isNaNBits .binary64 (UInt64.ofNat n).toBitVec := by
    intro hnan
    simp only [Float.Model.UnpackedFloat.isNaNBits, decide_eq_true_eq] at hnan
    have hexponent := congrArg BitVec.toNat hnan.1
    rw [Float.Model.UnpackedFloat.unpackExponent_def, BitVec.extractLsb'_toNat] at hexponent
    have hshift : n >>> 52 % 2 ^ 11 = 2047 := by
      rw [← hvalue]
      exact hexponent
    rw [Nat.shiftRight_eq_div_pow] at hshift
    omega
  have hpack := @Float.Model.UnpackedFloat.pack_unpack .binary64 (UInt64.ofNat n).toBitVec
  rw [if_neg hnumber] at hpack
  have hbits : (Float.ofBits (UInt64.ofNat n)).toBits = UInt64.ofNat n := by
    show UInt64.ofBitVec _ = _
    exact congrArg UInt64.ofBitVec hpack
  rw [hbits, hvalue]

theorem ofFloat?_double {m : ℕ} {q : ℤ} (h : IsCanonical m q) :
    Binary.ofFloat? (double m q) = some ⟨false, m, q⟩ := by
  have hbits : (double m q).toBits.toNat = packed m q := toBits_ofBits (packed_lt h)
  have hlt := packed_lt h
  have hm := h.mantissa
  have hnormal := h.normal
  have hleast := h.least
  unfold Binary.ofFloat?
  simp only [hbits, Nat.pow_eq]
  rcases Nat.lt_or_ge m (2 ^ 52) with hsmall | hlarge
  · have hq : q = -1074 := by omega
    have hpacked : packed m q = m := if_pos hsmall
    have hbiased : m / 2 ^ 52 % 2 ^ 11 = 0 := by omega
    have hsign : (m / 2 ^ 63 == 1) = false := by
      rw [beq_eq_false_iff_ne]
      omega
    rw [hpacked, hbiased, hsign, Nat.mod_eq_of_lt hsmall, hq]
    rfl
  · have hpacked : packed m q = (q + 1075).toNat * 2 ^ 52 + (m - 2 ^ 52) := if_neg (by omega)
    rw [hpacked] at hlt ⊢
    have hbiased : ((q + 1075).toNat * 2 ^ 52 + (m - 2 ^ 52)) / 2 ^ 52 % 2 ^ 11 = (q + 1075).toNat := by
      omega
    have hfraction : ((q + 1075).toNat * 2 ^ 52 + (m - 2 ^ 52)) % 2 ^ 52 + 2 ^ 52 = m := by omega
    have hsign : (((q + 1075).toNat * 2 ^ 52 + (m - 2 ^ 52)) / 2 ^ 63 == 1) = false := by
      rw [beq_eq_false_iff_ne]
      omega
    have hexponent : ((q + 1075).toNat : ℤ) - 1075 = q := by omega
    rw [hbiased, hfraction, hsign, hexponent, if_neg (by omega), if_neg (by omega)]

/-! ### Rounding to the nearest -/

/-- The fractions that are rounded to `m · 2^q`. -/
def Rounds (m : ℕ) (q : ℤ) (v : ℚ) : Prop :=
  let lower : ℚ := if m = 2 ^ 52 ∧ q ≠ -1074 then (m - 1 / 4) * 2 ^ q else (m - 1 / 2) * 2 ^ q
  let upper : ℚ := (m + 1 / 2) * 2 ^ q
  if m % 2 = 0 then lower ≤ v ∧ v ≤ upper else lower < v ∧ v < upper

/-- An exponent that leaves as many binary places of a fraction as a double has. -/
def IsScale (v : ℚ) (q : ℤ) : Prop :=
  -1074 ≤ q ∧ v < 2 ^ 53 * 2 ^ q ∧ (q = -1074 ∨ 2 ^ 52 * 2 ^ q ≤ v)

theorem IsScale.unique {v : ℚ} {p q : ℤ} (hp : IsScale v p) (hq : IsScale v q) : p = q := by
  have hle : ∀ {p q : ℤ}, IsScale v p → IsScale v q → ¬p < q := by
    intro p q hp hq hlt
    obtain ⟨hleast, hupper, -⟩ := hp
    obtain ⟨-, -, hlower⟩ := hq
    have hlower : (2 : ℚ) ^ 52 * 2 ^ q ≤ v := hlower.resolve_left (by omega)
    have hpow : (2 : ℚ) ^ (p + 1) ≤ 2 ^ q := zpow_le_zpow_right₀ (by norm_num) (by omega)
    rw [zpow_add_one₀ (by norm_num)] at hpow
    linarith
  have h := hle hp hq
  have h' := hle hq hp
  omega

/-- The whole number next to a quotient, where a tie goes to the even one. -/
def halfEven (a b : ℕ) : ℕ :=
  if 2 * (a % b) > b || (2 * (a % b) == b && a / b % 2 == 1) then a / b + 1 else a / b

/-- Half of the last place is rounded to the even neighbour. -/
theorem halfEven_eq {a b m : ℕ} (hb : 0 < b) (hlower : (2 * m - 1 : ℤ) * b ≤ 2 * a)
    (hupper : (2 * a : ℤ) ≤ (2 * m + 1) * b)
    (hodd : m % 2 = 1 → (2 * m - 1 : ℤ) * b < 2 * a ∧ (2 * a : ℤ) < (2 * m + 1) * b) :
    halfEven a b = m := by
  have hsplit : (a : ℤ) = b * (a / b : ℕ) + (a % b : ℕ) := by
    exact_mod_cast (Nat.div_add_mod a b).symm
  have hrest : a % b < b := Nat.mod_lt a hb
  unfold halfEven
  generalize a / b = k at hsplit ⊢
  generalize a % b = r at hsplit hrest ⊢
  have hb' : (0 : ℤ) < b := by exact_mod_cast hb
  have hrest' : (r : ℤ) < b := by exact_mod_cast hrest
  -- the quotient is the number or the one below it
  have hcases : (k : ℤ) = m ∨ (k : ℤ) = m - 1 := by
    have hle : (k : ℤ) ≤ m := by
      by_contra hgt
      nlinarith
    have hge : (m : ℤ) - 1 ≤ k := by
      by_contra hlt
      nlinarith
    omega
  rcases hcases with hk | hk
  · have hkm : k = m := by exact_mod_cast hk
    subst hkm
    have hhalf : 2 * r ≤ b := by
      have : (2 * r : ℤ) ≤ b := by linarith
      exact_mod_cast this
    have htie : k % 2 = 1 → 2 * r ≠ b := by
      intro hk heq
      have heq' : (2 * r : ℤ) = b := by exact_mod_cast heq
      have := (hodd hk).2
      linarith
    refine if_neg ?_
    simp only [gt_iff_lt, Bool.or_eq_true, decide_eq_true_eq, Bool.and_eq_true, beq_iff_eq]
    omega
  · have hkm : m = k + 1 := by omega
    subst hkm
    push_cast at *
    have hhalf : b ≤ 2 * r := by
      have : (b : ℤ) ≤ 2 * r := by linarith
      exact_mod_cast this
    have htie : (k + 1) % 2 = 1 → 2 * r ≠ b := by
      intro hk heq
      have heq' : (2 * r : ℤ) = b := by exact_mod_cast heq
      have := (hodd hk).1
      linarith
    refine if_pos ?_
    simp only [gt_iff_lt, Bool.or_eq_true, decide_eq_true_eq, Bool.and_eq_true, beq_iff_eq]
    omega

/-! ### Where the quotient is cut -/

/-- The exponent that leaves about as many places as a double has. -/
def guess (num den : ℕ) : ℤ := max ((num.log2 : ℤ) - den.log2 - 53) (-1074)

/-- The exponent at which the quotient is cut. -/
def scale (num den : ℕ) : ℤ :=
  if nearest.quotient num den (guess num den) < 2 ^ 53 then guess num den else guess num den + 1

/-- The nearest double in terms of its parts. -/
theorem nearest_eq {num den : ℕ} (hnum : num ≠ 0) {q : ℤ} (hq : scale num den = q) {m : ℕ}
    (hm : halfEven (num * 2 ^ (-q).toNat) (den * 2 ^ q.toNat) = m) (hlt : packed m q < 2047 * 2 ^ 52) :
    nearest num den = some (double m q) := by
  subst hq hm
  unfold nearest
  rw [if_neg hnum]
  simp only [Nat.pow_eq]
  exact if_pos hlt

/-- A fraction in units of a power of two. -/
theorem scaled_eq (num den : ℕ) (q : ℤ) :
    ((num * 2 ^ (-q).toNat : ℕ) : ℚ) / ((den * 2 ^ q.toNat : ℕ) : ℚ) = (num / den : ℚ) / 2 ^ q := by
  rcases le_total 0 q with hq | hq
  · obtain ⟨k, rfl⟩ := Int.eq_ofNat_of_zero_le hq
    have hneg : (-(k : ℤ)).toNat = 0 := by omega
    rw [hneg, Int.toNat_natCast, zpow_natCast]
    push_cast
    rw [mul_one, div_div]
  · obtain ⟨k, hk⟩ := Int.eq_ofNat_of_zero_le (neg_nonneg.mpr hq)
    have hqk : q = -(k : ℤ) := by omega
    have hpos : q.toNat = 0 := by omega
    rw [hpos, hqk, neg_neg, Int.toNat_natCast, zpow_neg, zpow_natCast]
    push_cast
    field_simp

theorem quotient_eq (num den : ℕ) (q : ℤ) :
    nearest.quotient num den q = ⌊(num / den : ℚ) / 2 ^ q⌋₊ := by
  unfold nearest.quotient
  rw [← scaled_eq, Nat.pow_eq, Nat.pow_eq, Nat.floor_div_eq_div]

/-- A natural number between two powers of two. -/
theorem log2_bounds {n : ℕ} (h : 0 < n) :
    (2 : ℚ) ^ (n.log2 : ℤ) ≤ n ∧ (n : ℚ) < 2 ^ ((n.log2 : ℤ) + 1) := by
  have hle : 2 ^ n.log2 ≤ n := Nat.log2_self_le (Nat.pos_iff_ne_zero.mp h)
  have hlt : n < 2 ^ (n.log2 + 1) := Nat.lt_log2_self
  constructor
  · exact_mod_cast hle
  · exact_mod_cast hlt

/-- A fraction between two powers of two. -/
theorem fraction_bounds {num den : ℕ} (hnum : 0 < num) (hden : 0 < den) :
    (2 : ℚ) ^ ((num.log2 : ℤ) - den.log2 - 1) ≤ num / den ∧
      (num / den : ℚ) < 2 ^ ((num.log2 : ℤ) - den.log2 + 1) := by
  obtain ⟨hnumLower, hnumUpper⟩ := log2_bounds hnum
  obtain ⟨hdenLower, hdenUpper⟩ := log2_bounds hden
  have hden' : (0 : ℚ) < den := by exact_mod_cast hden
  constructor
  · rw [le_div_iff₀ hden']
    calc (2 : ℚ) ^ ((num.log2 : ℤ) - den.log2 - 1) * den
        ≤ 2 ^ ((num.log2 : ℤ) - den.log2 - 1) * 2 ^ ((den.log2 : ℤ) + 1) := by gcongr
      _ = 2 ^ (num.log2 : ℤ) := by
        rw [← zpow_add₀ (by norm_num)]
        congr 1
        ring
      _ ≤ num := hnumLower
  · rw [div_lt_iff₀ hden']
    calc (num : ℚ) < 2 ^ ((num.log2 : ℤ) + 1) := hnumUpper
      _ = 2 ^ ((num.log2 : ℤ) - den.log2 + 1) * 2 ^ (den.log2 : ℤ) := by
        rw [← zpow_add₀ (by norm_num)]
        congr 1
        ring
      _ ≤ 2 ^ ((num.log2 : ℤ) - den.log2 + 1) * den := by gcongr

/-- The exponent at which the quotient is cut leaves as many places as a double has. -/
theorem isScale_scale {num den : ℕ} (hnum : 0 < num) (hden : 0 < den) :
    IsScale (num / den : ℚ) (scale num den) := by
  unfold scale guess
  rw [quotient_eq]
  obtain ⟨hlower, hupper⟩ := fraction_bounds hnum hden
  have hpos : (0 : ℚ) ≤ num / den := by positivity
  generalize (num / den : ℚ) = v at hlower hupper hpos ⊢
  generalize hg : max ((num.log2 : ℤ) - den.log2 - 53) (-1074) = g
  have hg_le : -1074 ≤ g := by omega
  have hpow : (0 : ℚ) < 2 ^ g := by positivity
  have hbelow : ⌊v / 2 ^ g⌋₊ < 2 ^ 53 ↔ v < 2 ^ 53 * 2 ^ g := by
    rw [Nat.floor_lt (by positivity), div_lt_iff₀ hpow]
    norm_num
  have hscale : ∀ k : ℕ, (2 : ℚ) ^ k * 2 ^ g = 2 ^ ((k : ℤ) + g) := by
    intro k
    rw [zpow_add₀ (by norm_num), zpow_natCast]
  split
  · next hlt =>
    refine ⟨hg_le, hbelow.mp hlt, ?_⟩
    by_cases hleast : g = -1074
    · exact Or.inl hleast
    · right
      have hgap : ((52 : ℕ) : ℤ) + g = (num.log2 : ℤ) - den.log2 - 1 := by omega
      rw [hscale, hgap]
      exact hlower
  · next hge =>
    have hlarge : 2 ^ 53 * 2 ^ g ≤ v := not_lt.mp fun hlt => hge (hbelow.mpr hlt)
    have hone : (2 : ℚ) ^ (g + 1) = 2 ^ g * 2 := zpow_add_one₀ (by norm_num) g
    refine ⟨by omega, ?_, Or.inr ?_⟩
    · calc v < 2 ^ ((num.log2 : ℤ) - den.log2 + 1) := hupper
        _ ≤ 2 ^ (((54 : ℕ) : ℤ) + g) := zpow_le_zpow_right₀ (by norm_num) (by omega)
        _ = 2 ^ 54 * 2 ^ g := (hscale 54).symm
        _ = 2 ^ 53 * 2 ^ (g + 1) := by rw [hone]; ring
    · rw [hone]
      linarith

theorem rounds_lower {m : ℕ} {q : ℤ} {v : ℚ} (h : Rounds m q v) :
    (if m = 2 ^ 52 ∧ q ≠ -1074 then (m - 1 / 4 : ℚ) * 2 ^ q else (m - 1 / 2) * 2 ^ q) ≤ v := by
  unfold Rounds at h
  dsimp only at h
  by_cases heven : m % 2 = 0
  · rw [if_pos heven] at h
    exact h.1
  · rw [if_neg heven] at h
    exact h.1.le

theorem rounds_upper {m : ℕ} {q : ℤ} {v : ℚ} (h : Rounds m q v) : v ≤ (m + 1 / 2) * 2 ^ q := by
  unfold Rounds at h
  dsimp only at h
  by_cases heven : m % 2 = 0
  · rw [if_pos heven] at h
    exact h.2
  · rw [if_neg heven] at h
    exact h.2.le

theorem halfEven_scaled {num den m : ℕ} {q : ℤ} (hden : 0 < den)
    (hlower : (m - 1 / 2 : ℚ) * 2 ^ q ≤ num / den) (hupper : (num / den : ℚ) ≤ (m + 1 / 2) * 2 ^ q)
    (hodd : m % 2 = 1 →
      (m - 1 / 2 : ℚ) * 2 ^ q < num / den ∧ (num / den : ℚ) < (m + 1 / 2) * 2 ^ q) :
    halfEven (num * 2 ^ (-q).toNat) (den * 2 ^ q.toNat) = m := by
  have hscaled := scaled_eq num den q
  have hb : 0 < den * 2 ^ q.toNat := by positivity
  have hpow : (0 : ℚ) < 2 ^ q := by positivity
  generalize (num / den : ℚ) = v at hlower hupper hodd hscaled
  generalize num * 2 ^ (-q).toNat = a at hscaled ⊢
  generalize den * 2 ^ q.toNat = b at hscaled hb ⊢
  have hb' : (0 : ℚ) < b := by exact_mod_cast hb
  have hv : v = a * 2 ^ q / b := by
    rw [div_eq_div_iff hb'.ne' hpow.ne'] at hscaled
    rw [eq_div_iff hb'.ne', hscaled]
  -- the bounds, in halves of the last place
  have hle : ∀ c : ℤ, (c / 2 : ℚ) * 2 ^ q ≤ v ↔ c * (b : ℤ) ≤ 2 * a := by
    intro c
    rw [hv, le_div_iff₀ hb', mul_right_comm, mul_le_mul_iff_of_pos_right hpow, div_mul_eq_mul_div,
      div_le_iff₀ (by norm_num), mul_comm (a : ℚ)]
    exact_mod_cast Iff.rfl
  have hge : ∀ c : ℤ, v ≤ (c / 2 : ℚ) * 2 ^ q ↔ 2 * (a : ℤ) ≤ c * b := by
    intro c
    rw [hv, div_le_iff₀ hb', mul_right_comm, mul_le_mul_iff_of_pos_right hpow, div_mul_eq_mul_div,
      le_div_iff₀ (by norm_num), mul_comm (a : ℚ)]
    exact_mod_cast Iff.rfl
  have hlow : (((2 * m - 1 : ℤ) : ℚ) / 2) = m - 1 / 2 := by
    push_cast
    ring
  have hupp : (((2 * m + 1 : ℤ) : ℚ) / 2) = m + 1 / 2 := by
    push_cast
    ring
  rw [← hlow] at hlower hodd
  rw [← hupp] at hupper hodd
  refine halfEven_eq hb ((hle _).mp hlower) ((hge _).mp hupper) fun hm => ?_
  obtain ⟨hlt, hgt⟩ := hodd hm
  exact ⟨not_le.mp fun hnot => hlt.not_ge ((hge _).mpr hnot),
    not_le.mp fun hnot => hgt.not_ge ((hle _).mpr hnot)⟩

/-- A mantissa that is rounded up to the next power of two is the least one of the next scale. -/
theorem double_carry {q : ℤ} (hq : -1074 < q) : double (2 ^ 53) (q - 1) = double (2 ^ 52) q ∧
    packed (2 ^ 53) (q - 1) = packed (2 ^ 52) q := by
  have hpacked : packed (2 ^ 53) (q - 1) = packed (2 ^ 52) q := by
    unfold packed
    rw [if_neg (by norm_num), if_neg (by norm_num)]
    omega
  refine ⟨?_, hpacked⟩
  unfold double
  rw [hpacked]

/-- A fraction just below a power of two is rounded up to it, in a scale that is finer by one place. -/
theorem nearest_of_carry {q : ℤ} (h : IsCanonical (2 ^ 52) q) (hq : q ≠ -1074) {num den : ℕ} (hnum : 0 < num)
    (hden : 0 < den) (hlower : (2 ^ 52 - 1 / 4 : ℚ) * 2 ^ q ≤ num / den)
    (hbelow : (num / den : ℚ) < 2 ^ 52 * 2 ^ q) : nearest num den = some (double (2 ^ 52) q) := by
  have hleast := h.least
  have hfine : (2 : ℚ) ^ q = 2 ^ (q - 1) * 2 := by
    rw [← zpow_add_one₀ (by norm_num), sub_add_cancel]
  have hfinePos : (0 : ℚ) < 2 ^ (q - 1) := by positivity
  rw [hfine] at hlower hbelow
  have hscale : scale num den = q - 1 := by
    refine (isScale_scale hnum hden).unique ⟨by omega, by linarith, Or.inr (by linarith)⟩
  have hround : halfEven (num * 2 ^ (-(q - 1)).toNat) (den * 2 ^ (q - 1).toNat) = 2 ^ 53 := by
    refine halfEven_scaled hden ?_ ?_ fun hodd => by omega
    · push_cast
      linarith
    · push_cast
      linarith
  obtain ⟨hdouble, hpacked⟩ := double_carry (q := q) (by omega)
  rw [← hdouble]
  refine nearest_eq hnum.ne' hscale hround ?_
  rw [hpacked]
  exact packed_lt h

/-- **Every fraction of the interval is read as the double.** -/
theorem nearest_of_rounds {m : ℕ} {q : ℤ} (h : IsCanonical m q) (hm : 0 < m) {num den : ℕ} (hden : 0 < den)
    (hv : Rounds m q (num / den)) : nearest num den = some (double m q) := by
  have hpow : (0 : ℚ) < 2 ^ q := by positivity
  have hm' : (1 : ℚ) ≤ m := by exact_mod_cast hm
  have hmantissa : (m : ℚ) ≤ 2 ^ 53 - 1 := by
    have hlt := h.mantissa
    have hle : m + 1 ≤ 2 ^ 53 := hlt
    have hle' : (m + 1 : ℚ) ≤ 2 ^ 53 := by exact_mod_cast hle
    linarith
  have hlower := rounds_lower hv
  have hupper := rounds_upper hv
  have hhalf : (m - 1 / 2 : ℚ) * 2 ^ q ≤ num / den := by
    refine le_trans ?_ hlower
    split
    · nlinarith
    · exact le_refl _
  have hpos : (0 : ℚ) < num / den := lt_of_lt_of_le (by nlinarith) hhalf
  have hnum : 0 < num := by
    rw [Nat.pos_iff_ne_zero]
    rintro rfl
    simp at hpos
  by_cases hcase : q = -1074 ∨ 2 ^ 52 * 2 ^ q ≤ (num / den : ℚ)
  · have hq : scale num den = q := by
      refine (isScale_scale hnum hden).unique ⟨h.least, ?_, hcase⟩
      nlinarith
    refine nearest_eq hnum.ne' hq (halfEven_scaled hden hhalf hupper fun hodd => ?_) (packed_lt h)
    have hne : ¬(m = 2 ^ 52 ∧ q ≠ -1074) := fun hm => by omega
    unfold Rounds at hv
    dsimp only at hv
    rw [if_neg hne, if_neg (by omega)] at hv
    exact hv
  · -- below the least normal mantissa the scale is finer by one place
    rw [not_or, not_le] at hcase
    obtain ⟨hq, hbelow⟩ := hcase
    have hm52 : m = 2 ^ 52 := by
      have hle := h.normal.resolve_right hq
      by_contra hne
      have hgt : 2 ^ 52 + 1 ≤ m := by omega
      have hgt' : (2 ^ 52 + 1 : ℚ) ≤ m := by exact_mod_cast hgt
      nlinarith
    subst hm52
    rw [if_pos ⟨rfl, hq⟩] at hlower
    push_cast at hlower
    exact nearest_of_carry h hq hnum hden hlower hbelow

/-! ### The decimal that is printed -/

/-- The number that a decimal stands for. -/
def Decimal.value (d : Decimal) : ℚ := d.digits * 10 ^ d.exponent

/-- A number between two bounds, which may belong to the range or not. -/
def Between (lower upper : ℕ) (closed : Bool) (n : ℕ) : Prop :=
  if closed then lower ≤ n ∧ n ≤ upper else lower < n ∧ n < upper

theorem between_of_nearestOnGrid {lower value upper grid digits : ℕ} {closed : Bool} (hlower : lower < value)
    (hupper : value < upper) (hgrid : 0 < grid)
    (h : nearestOnGrid lower value upper closed grid = some digits) :
    Between lower upper closed (digits * grid) := by
  have hdiv : value / grid * grid ≤ value := Nat.div_mul_le_self value grid
  have hmod : value < (value / grid + 1) * grid := by
    rw [Nat.add_mul, Nat.one_mul]
    exact Nat.lt_div_mul_add hgrid
  unfold nearestOnGrid at h
  unfold Between
  generalize value / grid = below at *
  cases closed with
  | true =>
    simp only [if_true, Bool.and_eq_true, decide_eq_true_eq] at h ⊢
    split at h
    · split at h <;> cases h <;> omega
    · split at h
      · cases h
        omega
      · split at h
        · cases h
          omega
        · cases h
  | false =>
    simp only [Bool.false_eq_true, if_false, Bool.and_eq_true, decide_eq_true_eq] at h ⊢
    split at h
    · split at h <;> cases h <;> omega
    · split at h
      · cases h
        omega
      · split at h
        · cases h
          omega
        · cases h

/-- The coarsest decimal lies in the range, on whatever grid it is found. -/
theorem between_coarsest {lower value upper : ℕ} (closed : Bool) (hlower : lower < value)
    (hupper : value < upper) (scale place : ℕ) :
    ∃ k : ℕ, (coarsest lower value upper closed scale place).exponent = k - scale ∧
      Between lower upper closed ((coarsest lower value upper closed scale place).digits * 10 ^ k) := by
  induction place with
  | zero =>
    refine ⟨0, by simp [coarsest], ?_⟩
    unfold coarsest Between
    cases closed <;> simp <;> omega
  | succ place ih =>
    unfold coarsest
    split
    · next digits hdigits =>
      exact ⟨place + 1, rfl, between_of_nearestOnGrid hlower hupper (Nat.pow_pos (by norm_num)) hdigits⟩
    · exact ih

/-- A quarter of the last place, in units of a power of ten. -/
theorem unit_eq (q : ℤ) :
    (((if 2 ≤ q then Nat.pow 2 (q - 2).toNat else Nat.pow 5 (2 - q).toNat : ℕ) : ℚ)) / 10 ^ (2 - q).toNat =
      2 ^ q / 4 := by
  have hquarter : (2 : ℚ) ^ (q - 2) = 2 ^ q / 4 := by
    rw [zpow_sub₀ (by norm_num)]
    norm_num
  rw [← hquarter]
  simp only [Nat.pow_eq]
  split
  · next hq =>
    obtain ⟨k, hk⟩ := Int.eq_ofNat_of_zero_le (sub_nonneg.mpr hq)
    have hzero : (2 - q).toNat = 0 := by omega
    rw [hzero, hk, Int.toNat_natCast, zpow_natCast]
    push_cast
    rw [pow_zero, div_one]
  · next hq =>
    obtain ⟨k, hk⟩ := Int.eq_ofNat_of_zero_le (a := 2 - q) (by omega)
    have hneg : q - 2 = -(k : ℤ) := by omega
    have hten : (10 : ℚ) ^ k = 2 ^ k * 5 ^ k := by
      rw [← mul_pow]
      norm_num
    rw [hk, hneg, Int.toNat_natCast, zpow_neg, zpow_natCast, hten]
    push_cast
    field_simp

section Ends

variable {m unit scale : ℕ} {q : ℤ} (hunit : (unit : ℚ) / 10 ^ scale = 2 ^ q / 4)
include hunit

/-- The upper end of the interval, as a whole number of units. -/
theorem upper_eq : (((4 * m + 2) * unit : ℕ) : ℚ) / 10 ^ scale = (m + 1 / 2) * 2 ^ q := by
  rw [Nat.cast_mul, mul_div_assoc, hunit]
  push_cast
  ring

/-- The lower end of the interval, as a whole number of units. -/
theorem lower_eq (hm : 0 < m) (hpos : 0 < unit) {lower : ℕ}
    (hlow : (if m = Nat.pow 2 52 && q ≠ -1074 then (4 * m - 1) * unit else (4 * m - 2) * unit) = lower) :
    lower < 4 * m * unit ∧ (lower : ℚ) / 10 ^ scale =
      if m = 2 ^ 52 ∧ q ≠ -1074 then (m - 1 / 4 : ℚ) * 2 ^ q else (m - 1 / 2) * 2 ^ q := by
  simp only [Nat.pow_eq, Bool.and_eq_true, decide_eq_true_eq] at hlow
  have hfour : (1 : ℕ) ≤ 4 * m := by omega
  have hfour' : (2 : ℕ) ≤ 4 * m := by omega
  split at hlow
  · next hleast =>
    rw [if_pos hleast, ← hlow]
    refine ⟨Nat.mul_lt_mul_of_pos_right (by omega) hpos, ?_⟩
    rw [Nat.cast_mul, mul_div_assoc, hunit, Nat.cast_sub hfour]
    push_cast
    ring
  · next hother =>
    rw [if_neg hother, ← hlow]
    refine ⟨Nat.mul_lt_mul_of_pos_right (by omega) hpos, ?_⟩
    rw [Nat.cast_mul, mul_div_assoc, hunit, Nat.cast_sub hfour']
    push_cast
    ring

end Ends

/-- **The decimal that is printed lies in the interval.** -/
theorem rounds_shortest {m : ℕ} {q : ℤ} (hm : 0 < m) : Rounds m q (shortest m q).value := by
  have hunit := unit_eq q
  unfold shortest
  dsimp only
  generalize (if 2 ≤ q then Nat.pow 2 (q - 2).toNat else Nat.pow 5 (2 - q).toNat : ℕ) = unit at hunit ⊢
  generalize (2 - q).toNat = scale at hunit ⊢
  have hscale : (0 : ℚ) < 10 ^ scale := by positivity
  have hpos : 0 < unit := by
    rw [Nat.pos_iff_ne_zero]
    rintro rfl
    have hpow : (0 : ℚ) < 2 ^ q / 4 := by positivity
    rw [← hunit] at hpow
    simp at hpow
  generalize hlow : (if m = Nat.pow 2 52 && q ≠ -1074 then (4 * m - 1) * unit else (4 * m - 2) * unit) = lower
  obtain ⟨hlower, hlowerEnd⟩ := lower_eq hunit hm hpos hlow
  have hupper : 4 * m * unit < (4 * m + 2) * unit := by nlinarith
  obtain ⟨k, hexponent, hbetween⟩ := between_coarsest (m % 2 == 0) hlower hupper scale
    (Nat.toDigits 10 (4 * m * unit)).length
  generalize coarsest lower (4 * m * unit) ((4 * m + 2) * unit) (m % 2 == 0) scale
    (Nat.toDigits 10 (4 * m * unit)).length = d at hexponent hbetween ⊢
  have hvalue : d.value = ((d.digits * 10 ^ k : ℕ) : ℚ) / 10 ^ scale := by
    unfold Decimal.value
    rw [hexponent, zpow_sub₀ (by norm_num), zpow_natCast, zpow_natCast]
    push_cast
    ring
  rw [hvalue]
  generalize d.digits * 10 ^ k = n at hbetween ⊢
  unfold Rounds Between at *
  dsimp only
  rw [← hlowerEnd, ← upper_eq hunit, div_le_div_iff_of_pos_right hscale, div_le_div_iff_of_pos_right hscale,
    div_lt_div_iff_of_pos_right hscale, div_lt_div_iff_of_pos_right hscale]
  by_cases heven : m % 2 = 0
  · rw [if_pos heven]
    rw [if_pos (by simpa using heven)] at hbetween
    exact_mod_cast hbetween
  · rw [if_neg heven]
    rw [if_neg (by simpa using heven)] at hbetween
    exact_mod_cast hbetween

end Spreadsheet.Numeric
