import Mathlib
import Spreadsheet.Proofs.Rounding
import Spreadsheet.Proofs.Spelling

/-!
# Numerals: a number is read back from its text

A numeral is a row of digits with at most one mark among them. Every double that is not negative is
written as one, and the numeral lies in the interval of fractions that are rounded to the double, so
reading it gives the double again.

* `readNumber_numberText` — a number comes back from its text, in either of the built-in locales.
* `isUnsigned_of_readNumber` — whatever is read from a text that begins with a digit is such a number.
* `Locale.fits_numberText` — in a formula the text is a single operand.

Zeros in front do not count, and the cut-offs for numbers too large or too small for a double are never
met: the first digit that counts says how large a numeral is.
-/

namespace Spreadsheet

namespace Numeric

/-! ### Values of digits -/

theorem digitsValue_append (a b : List Char) :
    digitsValue (a ++ b) = digitsValue a * 10 ^ b.length + digitsValue b := by
  rw [digitsValue_eq_foldl, digitsValue_eq_foldl, digitsValue_eq_foldl, List.foldl_append,
    foldl_appendDigit, Nat.pow_eq]

theorem digitsValue_cons (c : Char) (ds : List Char) :
    digitsValue (c :: ds) = (c.toNat - '0'.toNat) * 10 ^ ds.length + digitsValue ds := by
  rw [← List.singleton_append, digitsValue_append, digitsValue_eq_foldl [c], List.foldl_cons,
    List.foldl_nil, appendDigit, Nat.mul_zero, Nat.zero_add]

theorem digitsValue_toDigits (n : ℕ) : digitsValue (Nat.toDigits 10 n) = n := by
  have hfold : (Nat.toDigits 10 n).foldl appendDigit 0 = Nat.ofDigitChars 10 (Nat.toDigits 10 n) 0 :=
    Nat.ofDigitChars_eq_foldl.symm
  rw [digitsValue_eq_foldl, hfold, Nat.ofDigitChars_ten_toDigits]

theorem digitsValue_zeros (k : ℕ) : digitsValue (List.replicate k '0') = 0 := by
  induction k with
  | zero => rfl
  | succ k ih => rw [List.replicate_succ, digitsValue_cons, ih, Nat.sub_self, Nat.zero_mul]

/-- Zeros in front do not count. -/
theorem digitsValue_dropWhile (ds : List Char) : digitsValue (ds.dropWhile (· == '0')) = digitsValue ds := by
  induction ds with
  | nil => rfl
  | cons c ds ih =>
    rw [List.dropWhile_cons]
    split
    · next hc =>
      rw [ih, beq_iff_eq.mp hc, digitsValue_cons, Nat.sub_self, Nat.zero_mul, Nat.zero_add]
    · rfl

theorem digitsValue_lt {ds : List Char} (h : ∀ c ∈ ds, c.isDigit = true) :
    digitsValue ds < 10 ^ ds.length := by
  induction ds with
  | nil => exact Nat.one_pos
  | cons c ds ih =>
    have hrest := ih fun d hd => h d (List.mem_cons_of_mem c hd)
    have hdigit : c.toNat - '0'.toNat ≤ 9 := Nat.sub_le_sub_right (Grid.digit_bounds (h c List.mem_cons_self)).2 48
    have hscaled := Nat.mul_le_mul_right (10 ^ ds.length) hdigit
    rw [digitsValue_cons, List.length_cons, pow_succ]
    omega

/-- The first digit that is not zero says how large a number is at least. -/
theorem le_digitsValue {c : Char} (ds : List Char) (hdigit : c.isDigit = true) (hc : c ≠ '0') :
    10 ^ ds.length ≤ digitsValue (c :: ds) := by
  have hpos : 1 ≤ c.toNat - '0'.toNat := by
    have hlower := (Grid.digit_bounds hdigit).1
    have hne : c.toNat ≠ 48 := fun heq => hc (Char.toNat_inj.mp heq)
    have hzero : ('0' : Char).toNat = 48 := rfl
    omega
  have hscaled := Nat.mul_le_mul_right (10 ^ ds.length) hpos
  rw [digitsValue_cons]
  omega

/-! ### Digits that are rounded to a double -/

theorem two_pow_lt : (2 : ℕ) ^ 1075 < 10 ^ 400 := by
  decide +kernel

theorem two_zpow_bounds {m : ℕ} {q : ℤ} (h : IsCanonical m q) (hm : 0 < m) {v : ℚ} (hv : Rounds m q v) :
    (10 : ℚ) ^ (-400 : ℤ) < v ∧ v < 10 ^ (400 : ℤ) := by
  have hten : (2 : ℚ) ^ 1075 < 10 ^ 400 := by exact_mod_cast two_pow_lt
  have hm' : (1 : ℚ) ≤ m := by exact_mod_cast hm
  have hmantissa : (m : ℚ) ≤ 2 ^ 53 - 1 := by
    have hle : m + 1 ≤ 2 ^ 53 := h.mantissa
    have hle' : (m + 1 : ℚ) ≤ 2 ^ 53 := by exact_mod_cast hle
    linarith
  have hpow : (0 : ℚ) < 2 ^ q := by positivity
  have hleast : (2 : ℚ) ^ (-1074 : ℤ) ≤ 2 ^ q := zpow_le_zpow_right₀ (by norm_num) h.least
  have hgreatest : (2 : ℚ) ^ q ≤ 2 ^ (971 : ℤ) := zpow_le_zpow_right₀ (by norm_num) h.greatest
  constructor
  · have hlower := rounds_lower hv
    have hhalf : (m - 1 / 2 : ℚ) * 2 ^ q ≤ v := by
      refine le_trans ?_ hlower
      split
      · nlinarith
      · exact le_refl _
    have hsmall : (2 : ℚ) ^ (-1075 : ℤ) ≤ (m - 1 / 2 : ℚ) * 2 ^ q := by
      have hone : (2 : ℚ) ^ (-1074 : ℤ) = 2 ^ (-1075 : ℤ) * 2 := by
        rw [← zpow_add_one₀ (by norm_num)]
        norm_num
      nlinarith
    have hinverse : (10 : ℚ) ^ (-400 : ℤ) < 2 ^ (-1075 : ℤ) := by
      rw [zpow_neg, zpow_neg]
      exact inv_strictAnti₀ (by positivity) (by exact_mod_cast hten)
    linarith
  · have hupper := rounds_upper hv
    have hlarge : (m + 1 / 2 : ℚ) * 2 ^ q ≤ 2 ^ 53 * 2 ^ (971 : ℤ) := by
      apply mul_le_mul (by linarith) hgreatest hpow.le (by positivity)
    have hexact : (2 : ℚ) ^ 53 * 2 ^ (971 : ℤ) < 2 ^ 1075 := by
      rw [← zpow_natCast, ← zpow_add₀ (by norm_num), ← zpow_natCast]
      exact zpow_lt_zpow_right₀ (by norm_num) (by norm_num)
    exact (hupper.trans hlarge).trans_lt (hexact.trans hten)

/-- A number with digits behind the point lies between powers of ten. -/
theorem scaled_bounds {c : Char} {ds : List Char} (h : ∀ d ∈ c :: ds, d.isDigit = true) (hc : c ≠ '0')
    (places : ℕ) : (10 : ℚ) ^ ((ds.length : ℤ) - places) ≤ digitsValue (c :: ds) / 10 ^ places ∧
      (digitsValue (c :: ds) / 10 ^ places : ℚ) < 10 ^ ((ds.length : ℤ) + 1 - places) := by
  have hpow : (0 : ℚ) < 10 ^ places := by positivity
  have hlower := le_digitsValue ds (h c List.mem_cons_self) hc
  have hupper := digitsValue_lt h
  rw [zpow_sub₀ (by norm_num), zpow_sub₀ (by norm_num), zpow_natCast, zpow_natCast,
    div_le_div_iff_of_pos_right hpow, div_lt_div_iff_of_pos_right hpow]
  constructor
  · exact_mod_cast hlower
  · rw [List.length_cons] at hupper
    exact_mod_cast hupper

theorem zero_eq_double : (0 : Float) = double 0 (-1074) := by
  decide +kernel

/-- **Digits that are rounded to a double are read as it.** -/
theorem ofDigits_of_rounds {m : ℕ} {q : ℤ} (h : IsCanonical m q) {ds : List Char}
    (hds : ∀ d ∈ ds, d.isDigit = true) {places : ℕ} (hv : Rounds m q (digitsValue ds / 10 ^ places))
    (hzero : m = 0 → digitsValue ds = 0) : ofDigits ds (-(places : ℤ)) = some (double m q) := by
  have hsub : ∀ d ∈ ds.dropWhile (· == '0'), d.isDigit = true := fun d hd =>
    hds d ((List.dropWhile_sublist _).subset hd)
  have hfirst : ∀ d ∈ (ds.dropWhile (· == '0')).head?, d ≠ '0' := by
    intro d hd heq
    have hnot := List.head?_dropWhile_not (· == '0') ds
    rw [hd, heq] at hnot
    simp at hnot
  rw [← digitsValue_dropWhile ds] at hv hzero
  unfold ofDigits
  dsimp only
  generalize ds.dropWhile (· == '0') = significant at hv hzero hsub hfirst ⊢
  match significant with
  | [] =>
    have hm : m = 0 := by
      by_contra hne
      have hpos : (0 : ℚ) < 10 ^ (-400 : ℤ) := by positivity
      have hlarge := (two_zpow_bounds h (Nat.pos_iff_ne_zero.mpr hne) hv).1
      rw [digitsValue_eq_foldl, List.foldl_nil, Nat.cast_zero, zero_div] at hlarge
      exact hpos.not_gt hlarge
    have hq : q = -1074 := h.normal.resolve_left (by omega)
    rw [if_pos (Or.inl rfl), zero_eq_double, hm, hq]
  | c :: significant =>
    have hc := hfirst c rfl
    obtain ⟨hlower, hupper⟩ := scaled_bounds hsub hc places
    have hm : 0 < m := by
      rw [Nat.pos_iff_ne_zero]
      intro hm
      have hpos := le_digitsValue significant (hsub c List.mem_cons_self) hc
      rw [hzero hm] at hpos
      exact (Nat.pow_pos (by norm_num)).not_ge hpos
    obtain ⟨hsmall, hlarge⟩ := two_zpow_bounds h hm hv
    have hsmall' : ¬(((c :: significant).length : ℤ) + -places < -400) := by
      intro hlt
      have hle : (10 : ℚ) ^ ((significant.length : ℤ) + 1 - places) ≤ 10 ^ (-400 : ℤ) :=
        zpow_le_zpow_right₀ (by norm_num) (by rw [List.length_cons] at hlt; push_cast at hlt; omega)
      exact (hsmall.trans (hupper.trans_le hle)).false
    have hlarge' : ¬(400 < ((c :: significant).length : ℤ) + -places) := by
      intro hlt
      have hle : (10 : ℚ) ^ (400 : ℤ) ≤ 10 ^ ((significant.length : ℤ) - places) :=
        zpow_le_zpow_right₀ (by norm_num) (by rw [List.length_cons] at hlt; push_cast at hlt; omega)
      exact (hlarge.trans_le (hle.trans hlower)).false
    rw [if_neg (fun hor => hor.elim (List.cons_ne_nil _ _) hsmall'), if_neg hlarge', neg_neg, Int.toNat_natCast,
      Int.toNat_neg_natCast, Nat.pow_eq, Nat.pow_eq, pow_zero, mul_one]
    refine nearest_of_rounds h hm (Nat.pow_pos (by norm_num)) ?_
    push_cast
    exact hv

/-- A double that is finite and not negative. -/
def IsUnsigned (x : Float) : Prop := ∃ m q, IsCanonical m q ∧ x = double m q

theorem isUnsigned_zero : IsUnsigned 0 :=
  ⟨0, -1074, ⟨by norm_num, Or.inr rfl, le_refl _, by norm_num⟩, zero_eq_double⟩

theorem isUnsigned_ofBits {n : ℕ} (h : n < 2047 * 2 ^ 52) : IsUnsigned (Float.ofBits (UInt64.ofNat n)) := by
  rcases Nat.lt_or_ge n (2 ^ 52) with hsmall | hlarge
  · refine ⟨n, -1074, ⟨by omega, Or.inr rfl, le_refl _, by norm_num⟩, ?_⟩
    unfold double packed
    rw [if_pos hsmall]
  · refine ⟨n % 2 ^ 52 + 2 ^ 52, (n / 2 ^ 52 : ℕ) - 1075, ⟨by omega, Or.inl (by omega), by omega, by omega⟩, ?_⟩
    have hpacked : packed (n % 2 ^ 52 + 2 ^ 52) ((n / 2 ^ 52 : ℕ) - 1075) = n := by
      unfold packed
      rw [if_neg (by omega)]
      omega
    unfold double
    rw [hpacked]

theorem isUnsigned_of_nearest {num den : ℕ} {x : Float} (h : nearest num den = some x) : IsUnsigned x := by
  unfold nearest at h
  by_cases hnum : num = 0
  · rw [if_pos hnum] at h
    cases h
    exact isUnsigned_zero
  · rw [if_neg hnum] at h
    obtain ⟨hlt, heq⟩ := Option.ite_none_right_eq_some.mp h
    rw [← Option.some.inj heq]
    exact isUnsigned_ofBits hlt

theorem isUnsigned_of_ofDigits {ds : List Char} {exponent : ℤ} {x : Float}
    (h : ofDigits ds exponent = some x) : IsUnsigned x := by
  unfold ofDigits at h
  dsimp only at h
  split at h
  · cases h
    exact isUnsigned_zero
  · split at h
    · cases h
    · exact isUnsigned_of_nearest h

/-! ### Numerals -/

/-- Digits in front of a decimal mark and behind it. -/
structure Numeral where
  whole : List Char
  fraction : List Char

namespace Numeral

/-- The text of a numeral; the mark is left out where no digit follows it. -/
def chars (n : Numeral) (mark : Char) : List Char :=
  n.whole ++ if n.fraction = [] then [] else mark :: n.fraction

/-- The fraction that a numeral stands for. -/
def value (n : Numeral) : ℚ := digitsValue (n.whole ++ n.fraction) / 10 ^ n.fraction.length

/-- A numeral has a digit in front of its mark. -/
structure IsProper (n : Numeral) : Prop where
  whole_ne : n.whole ≠ []
  isDigit : ∀ c ∈ n.whole ++ n.fraction, c.isDigit = true

variable {n : Numeral}

theorem IsProper.whole (h : n.IsProper) : ∀ c ∈ n.whole, c.isDigit = true := fun c hc =>
  h.isDigit c (List.mem_append_left _ hc)

theorem IsProper.fraction (h : n.IsProper) : ∀ c ∈ n.fraction, c.isDigit = true := fun c hc =>
  h.isDigit c (List.mem_append_right _ hc)

theorem IsProper.exists_cons (h : n.IsProper) (mark : Char) :
    ∃ c cs, n.chars mark = c :: cs ∧ c.isDigit = true := by
  obtain ⟨c, cs, hcs⟩ := List.exists_cons_of_ne_nil h.whole_ne
  refine ⟨c, cs ++ if n.fraction = [] then [] else mark :: n.fraction, ?_, h.whole c ?_⟩
  · rw [chars, hcs, List.cons_append]
  · rw [hcs]
    exact List.mem_cons_self

theorem IsProper.isDigit_getLast? (h : n.IsProper) (mark : Char) :
    ∀ c ∈ (n.chars mark).getLast?, c.isDigit = true := by
  intro c hc
  unfold chars at hc
  split at hc
  · rw [List.append_nil] at hc
    exact h.whole c (List.mem_of_mem_getLast? hc)
  · next hne =>
    rw [List.getLast?_append_cons, List.getLast?_cons_of_ne_nil hne] at hc
    exact h.fraction c (List.mem_of_mem_getLast? hc)

theorem IsProper.of_mem_chars (h : n.IsProper) {mark c : Char} (hc : c ∈ n.chars mark) :
    c.isDigit = true ∨ c = mark := by
  unfold chars at hc
  split at hc
  · rw [List.append_nil] at hc
    exact Or.inl (h.whole c hc)
  · rw [List.mem_append, List.mem_cons] at hc
    rcases hc with hc | hc | hc
    · exact Or.inl (h.whole c hc)
    · exact Or.inr hc
    · exact Or.inl (h.fraction c hc)

/-- The point is exchanged for another mark. -/
theorem IsProper.map_mark (h : n.IsProper) (mark : Char) :
    (n.chars '.').map (fun c => if c = '.' then mark else c) = n.chars mark := by
  have hdigits : ∀ ds : List Char, (∀ c ∈ ds, c.isDigit = true) →
      ds.map (fun c => if c = '.' then mark else c) = ds := by
    intro ds hds
    conv => rhs; rw [← List.map_id ds]
    refine List.map_congr_left fun c hc => if_neg ?_
    rintro rfl
    have hpoint := hds '.' hc
    cases hpoint
  unfold chars
  rw [List.map_append, hdigits _ h.whole]
  split
  · rfl
  · rw [List.map_cons, hdigits _ h.fraction, if_pos rfl]

end Numeral

/-- The numeral of a whole number. -/
theorem proper_toDigits (n : ℕ) : (Numeral.mk (Nat.toDigits 10 n) []).IsProper where
  whole_ne := Nat.toDigits_ne_nil
  isDigit c hc := by
    rw [List.append_nil] at hc
    exact Grid.isDigit_of_mem_toDigits hc

theorem value_toDigits (n : ℕ) : (Numeral.mk (Nat.toDigits 10 n) []).value = n := by
  unfold Numeral.value
  rw [List.append_nil, digitsValue_toDigits, List.length_nil, pow_zero, div_one]

theorem isDigit_of_mem_zeros {k : ℕ} {c : Char} (hc : c ∈ List.replicate k '0') : c.isDigit = true := by
  rw [(List.mem_replicate.mp hc).2]
  rfl

section Layout

variable {ds : List Char} (hdigit : ∀ c ∈ ds, c.isDigit = true) (hne : ds ≠ [])
include hdigit hne

/-- Digits with zeros behind them. -/
theorem numeral_of_zerosBehind (k : ℕ) : ∃ n : Numeral, n.IsProper ∧ ds ++ List.replicate k '0' = n.chars '.' ∧
    n.value = digitsValue ds * 10 ^ k := by
  refine ⟨⟨ds ++ List.replicate k '0', []⟩, ⟨List.append_ne_nil_of_left_ne_nil hne _, ?_⟩, ?_, ?_⟩
  · intro c hc
    rw [List.append_nil, List.mem_append] at hc
    exact hc.elim (hdigit c) isDigit_of_mem_zeros
  · rw [Numeral.chars, if_pos rfl, List.append_nil]
  · unfold Numeral.value
    rw [List.append_nil, digitsValue_append, digitsValue_zeros, List.length_replicate, List.length_nil]
    push_cast
    ring

/-- Digits with the point among them. -/
theorem numeral_of_pointInside {k : ℕ} (hk : k ≠ 0) (hplaces : k < ds.length) : ∃ n : Numeral, n.IsProper ∧
    ds.take (ds.length - k) ++ '.' :: ds.drop (ds.length - k) = n.chars '.' ∧
    n.value = digitsValue ds / 10 ^ k := by
  have hlength : (ds.drop (ds.length - k)).length = k := by
    rw [List.length_drop]
    omega
  have hfraction : ds.drop (ds.length - k) ≠ [] := by
    rw [← List.length_pos_iff, hlength]
    omega
  refine ⟨⟨ds.take (ds.length - k), ds.drop (ds.length - k)⟩, ⟨?_, ?_⟩, ?_, ?_⟩
  · rw [Ne, List.take_eq_nil_iff]
    exact fun hor => hor.elim (by omega) hne
  · rw [List.take_append_drop]
    exact hdigit
  · rw [Numeral.chars, if_neg hfraction]
  · unfold Numeral.value
    rw [List.take_append_drop, hlength]

/-- Digits behind the point, with zeros in front of them. -/
theorem numeral_of_zerosBefore {k : ℕ} (hplaces : ds.length ≤ k) : ∃ n : Numeral, n.IsProper ∧
    '0' :: '.' :: List.replicate (k - ds.length) '0' ++ ds = n.chars '.' ∧ n.value = digitsValue ds / 10 ^ k := by
  have hlength : (List.replicate (k - ds.length) '0' ++ ds).length = k := by
    rw [List.length_append, List.length_replicate]
    omega
  refine ⟨⟨['0'], List.replicate (k - ds.length) '0' ++ ds⟩, ⟨List.cons_ne_nil _ _, ?_⟩, ?_, ?_⟩
  · intro c hc
    rw [List.singleton_append, List.mem_cons, List.mem_append] at hc
    rcases hc with rfl | hc | hc
    · rfl
    · exact isDigit_of_mem_zeros hc
    · exact hdigit c hc
  · rw [Numeral.chars, if_neg (List.append_ne_nil_of_right_ne_nil _ hne)]
    rfl
  · unfold Numeral.value
    rw [List.singleton_append, digitsValue_cons, digitsValue_append, digitsValue_zeros, hlength, Nat.sub_self,
      Nat.zero_mul, Nat.zero_mul, Nat.zero_add, Nat.zero_add]

end Layout

/-- A decimal is written as a numeral of the same value. -/
theorem numeral_of_decimal (d : Decimal) :
    ∃ n : Numeral, n.IsProper ∧ d.text = n.chars '.' ∧ n.value = d.value := by
  have hdigit : ∀ c ∈ Nat.toDigits 10 d.digits, c.isDigit = true := fun c hc => Grid.isDigit_of_mem_toDigits hc
  have hne : Nat.toDigits 10 d.digits ≠ [] := Nat.toDigits_ne_nil
  have hdigits : digitsValue (Nat.toDigits 10 d.digits) = d.digits := digitsValue_toDigits _
  unfold Decimal.text Decimal.value
  dsimp only
  generalize Nat.toDigits 10 d.digits = ds at *
  rw [← hdigits]
  rcases le_or_gt 0 d.exponent with hexponent | hexponent
  · obtain ⟨k, hk⟩ := Int.eq_ofNat_of_zero_le hexponent
    rw [if_pos hexponent, hk, Int.toNat_natCast, zpow_natCast]
    exact numeral_of_zerosBehind hdigit hne k
  · obtain ⟨k, hk⟩ := Int.eq_ofNat_of_zero_le (a := -d.exponent) (by omega)
    have hexponent' : d.exponent = -(k : ℤ) := by omega
    rw [if_neg (by omega), hk, Int.toNat_natCast, hexponent', zpow_neg, zpow_natCast, ← div_eq_mul_inv]
    split
    · next hplaces => exact numeral_of_pointInside hdigit hne (by omega) hplaces
    · next hplaces => exact numeral_of_zerosBefore hdigit hne (Nat.not_lt.mp hplaces)

/-- A number that is whole rounds to itself. -/
theorem rounds_floorAbs {m : ℕ} {q : ℤ} (h : Binary.isWhole ⟨false, m, q⟩ = true) :
    Rounds m q (Binary.floorAbs ⟨false, m, q⟩ : ℕ) ∧ (m = 0 → Binary.floorAbs ⟨false, m, q⟩ = 0) := by
  have hvalue : ((Binary.floorAbs ⟨false, m, q⟩ : ℕ) : ℚ) = m * 2 ^ q := by
    unfold Binary.isWhole at h
    unfold Binary.floorAbs
    dsimp only at h ⊢
    split
    · next hq =>
      obtain ⟨k, hk⟩ := Int.eq_ofNat_of_zero_le hq
      rw [hk, Int.toNat_natCast, zpow_natCast, Nat.pow_eq]
      push_cast
      rfl
    · next hq =>
      obtain ⟨k, hk⟩ := Int.eq_ofNat_of_zero_le (a := -q) (by omega)
      rw [decide_eq_false hq, Bool.false_or, beq_iff_eq, hk, Int.toNat_natCast, Nat.pow_eq] at h
      rw [hk, Int.toNat_natCast, Nat.pow_eq, show q = -(k : ℤ) by omega, zpow_neg, zpow_natCast,
        Nat.cast_div (Nat.dvd_of_mod_eq_zero h) (by positivity)]
      push_cast
      rw [div_eq_mul_inv]
  constructor
  · have hpow : (0 : ℚ) < 2 ^ q := by positivity
    rw [hvalue]
    unfold Rounds
    dsimp only
    split <;> split <;> constructor <;> nlinarith
  · intro hm
    rw [hm, Nat.cast_zero, zero_mul] at hvalue
    rw [hm]
    exact_mod_cast hvalue

/-- **A number is written as a numeral that is rounded to it.** -/
theorem numeral_of_text {m : ℕ} {q : ℤ} (h : IsCanonical m q) (mark : Char) :
    ∃ n : Numeral, n.IsProper ∧ (text (double m q) mark).toList = n.chars mark ∧ Rounds m q n.value ∧
      (m = 0 → n.value = 0) := by
  unfold text
  rw [ofFloat?_double h]
  dsimp only
  split
  · next hwhole =>
    rw [Bool.and_eq_true] at hwhole
    obtain ⟨hrounds, hzero⟩ := rounds_floorAbs hwhole.1
    refine ⟨⟨Nat.toDigits 10 (Binary.floorAbs ⟨false, m, q⟩), []⟩, proper_toDigits _, ?_, ?_, ?_⟩
    · rw [Numeral.chars, if_pos rfl, List.append_nil]
      unfold Binary.truncate Binary.signed
      exact String.toList_ofList
    · rw [value_toDigits]
      exact hrounds
    · rw [value_toDigits]
      exact fun hm => by rw [hzero hm, Nat.cast_zero]
  · next hother =>
    have hm : 0 < m := by
      rw [Nat.pos_iff_ne_zero]
      rintro rfl
      refine hother ?_
      unfold Binary.isWhole Binary.floorAbs
      simp [wholeLimit]
    obtain ⟨n, hproper, hchars, hvalue⟩ := numeral_of_decimal (shortest m q)
    refine ⟨n, hproper, ?_, ?_, fun hzero => absurd hzero hm.ne'⟩
    · unfold plainText text.withMark
      rw [ofFloat?_double h]
      dsimp only
      rw [if_neg Bool.false_ne_true, if_neg hm.ne', List.nil_append, String.toList_ofList, String.toList_ofList,
        hchars, hproper.map_mark]
    · rw [hvalue]
      exact rounds_shortest hm

/-! ### Reading a numeral -/

theorem splitSign_of_isDigit {c : Char} (h : c.isDigit = true) (cs : List Char) :
    splitSign (c :: cs) = (false, c :: cs) := by
  unfold splitSign
  split
  · next heq =>
    rw [(List.cons.inj heq).1] at h
    cases h
  · next heq =>
    rw [(List.cons.inj heq).1] at h
    cases h
  · rfl

/-- What a text that begins with a digit is read as comes from digits alone. -/
theorem isUnsigned_of_read {mark c : Char} {s : String} {x : Float} (hc : s.toList.head? = some c)
    (hdigit : c.isDigit = true) (h : read mark s = some x) : IsUnsigned x := by
  obtain ⟨cs, hcs⟩ : ∃ cs, s.toList = c :: cs := List.head?_eq_some_iff.mp hc
  unfold read at h
  rw [hcs, splitSign_of_isDigit hdigit] at h
  dsimp only at h
  obtain ⟨-, h⟩ := Option.ite_none_left_eq_some.mp h
  obtain ⟨exponent, -, h⟩ := Option.bind_eq_some_iff.mp h
  obtain ⟨magnitude, hmagnitude, h⟩ := Option.bind_eq_some_iff.mp h
  rw [if_neg Bool.false_ne_true] at h
  cases h
  exact isUnsigned_of_ofDigits hmagnitude

/-- A numeral is read by its digits. -/
theorem read_numeral {n : Numeral} (h : n.IsProper) {mark : Char} (hmark : isMark mark mark = true) :
    read mark (String.ofList (n.chars mark)) =
      ofDigits (n.whole ++ n.fraction) (-(n.fraction.length : ℤ)) := by
  obtain ⟨c, cs, hcs, hdigit⟩ := h.exists_cons mark
  have hsplit : splitSign (n.chars mark) = (false, n.chars mark) := by
    rw [hcs]
    exact splitSign_of_isDigit hdigit cs
  have hmarkDigit : mark.isDigit = false := by
    rw [← Bool.not_eq_true]
    intro hdigit
    rw [isMark, hdigit] at hmark
    simp at hmark
  have hstop : ∀ c ∈ (if n.fraction = [] then [] else mark :: n.fraction).head?, c.isDigit = false := by
    split
    · exact fun c hc => absurd hc (by simp)
    · rintro c ⟨⟩
      exact hmarkDigit
  have hwhole : (n.chars mark).takeWhile Char.isDigit = n.whole := Text.takeWhile_append_stop h.whole hstop
  have htail : (n.chars mark).dropWhile Char.isDigit = if n.fraction = [] then [] else mark :: n.fraction :=
    Text.dropWhile_append_stop h.whole hstop
  unfold read
  rw [String.toList_ofList, hsplit]
  dsimp only
  rw [hwhole, htail]
  have hne : ∀ fraction : List Char, ¬(n.whole = [] ∧ fraction = []) := fun fraction hand => h.whole_ne hand.1
  by_cases hfraction : n.fraction = []
  · rw [if_pos hfraction, hfraction]
    dsimp only
    rw [if_neg (hne _)]
    simp [readExponent]
  · rw [if_neg hfraction]
    simp only [hmark, if_true, Text.takeWhile_all h.fraction, Text.dropWhile_all h.fraction]
    rw [if_neg (hne _)]
    simp [readExponent]

end Numeric

/-! ### Numbers in the built-in locales -/

namespace Locale

open Numeric

variable {l : Locale}

theorem IsBuiltIn.isMark (h : l.IsBuiltIn) : Numeric.isMark l.decimal l.decimal = true := by
  rcases h with rfl | rfl <;> decide

/-- Digits and the decimal mark are gathered into an operand. -/
theorem IsBuiltIn.isSpecial_eq_false (h : l.IsBuiltIn) {c : Char} (hc : c.isDigit = true ∨ c = l.decimal) :
    Lexer.isSpecial l c = false := by
  rcases hc with hdigit | rfl
  · exact isSpecial_of_isWritten h.hasPlainSeparator
      (isWritten_of_isBare (isBare_of_isAlphanum (Bool.or_eq_true_iff.mpr (Or.inr hdigit))))
  · rcases h with rfl | rfl <;> decide

theorem isBlank_eq_false {c : Char} (h : c.isDigit = true) : Text.isBlank c = false := by
  obtain ⟨hlower, hupper⟩ := Grid.digit_bounds h
  unfold Text.isBlank
  simp only [Bool.or_eq_false_iff, Bool.and_eq_false_iff, beq_eq_false_iff_ne, decide_eq_false_iff_not]
  omega

theorem dropWhile_isBlank {cs : List Char} (h : ∀ c ∈ cs.head?, c.isDigit = true) :
    cs.dropWhile Text.isBlank = cs := by
  match cs with
  | [] => rfl
  | c :: cs =>
    rw [List.dropWhile_cons, isBlank_eq_false (h c rfl), if_neg Bool.false_ne_true]

/-- The first character of a text that begins with a digit stays when blanks are dropped. -/
theorem head?_trimBlanks {s : String} {c : Char} (h : s.toList.head? = some c) (hdigit : c.isDigit = true) :
    (Text.trimBlanks s).toList.head? = some c := by
  have hfirst : ∀ d ∈ s.toList.head?, d.isDigit = true := by
    rw [h]
    rintro d ⟨⟩
    exact hdigit
  obtain ⟨cs, hcs⟩ : ∃ cs, s.toList = c :: cs := List.head?_eq_some_iff.mp h
  unfold Text.trimBlanks
  rw [String.toList_ofList, dropWhile_isBlank hfirst, hcs, List.reverse_cons, List.dropWhile_append]
  split
  · rw [List.dropWhile_cons, isBlank_eq_false hdigit, if_neg Bool.false_ne_true]
    rfl
  · rw [List.reverse_append]
    rfl

theorem isUnsigned_of_readNumber {s : String} {c : Char} {x : Float} (hc : s.toList.head? = some c)
    (hdigit : c.isDigit = true) (h : l.readNumber s = some x) : IsUnsigned x :=
  isUnsigned_of_read (head?_trimBlanks hc hdigit) hdigit h

/-- A number is written as a numeral that is read as the number. -/
theorem numeral_of_numberText (hl : l.IsBuiltIn) {x : Float} (hx : IsUnsigned x) :
    ∃ n : Numeral, n.IsProper ∧ (l.numberText x).toList = n.chars l.decimal ∧
      l.readNumber (l.numberText x) = some x := by
  obtain ⟨m, q, hcanonical, rfl⟩ := hx
  obtain ⟨n, hproper, hchars, hrounds, hzero⟩ := numeral_of_text hcanonical l.decimal
  have htext : l.numberText (double m q) = String.ofList (n.chars l.decimal) := by
    rw [← hchars, String.ofList_toList]
    rfl
  have htrim : Text.trimBlanks (String.ofList (n.chars l.decimal)) = String.ofList (n.chars l.decimal) := by
    have hfirst : ∀ c ∈ (n.chars l.decimal).head?, c.isDigit = true := by
      obtain ⟨c, cs, hcs, hdigit⟩ := hproper.exists_cons l.decimal
      rw [hcs]
      rintro d ⟨⟩
      exact hdigit
    have hlast : ∀ c ∈ (n.chars l.decimal).reverse.head?, c.isDigit = true := by
      rw [List.head?_reverse]
      exact hproper.isDigit_getLast? l.decimal
    unfold Text.trimBlanks
    rw [String.toList_ofList, dropWhile_isBlank hfirst, dropWhile_isBlank hlast, List.reverse_reverse]
  have hvalue : m = 0 → digitsValue (n.whole ++ n.fraction) = 0 := by
    intro hm
    have hpow : (10 : ℚ) ^ n.fraction.length ≠ 0 := by positivity
    have hquotient := hzero hm
    rw [Numeral.value, div_eq_zero_iff, or_iff_left hpow] at hquotient
    exact_mod_cast hquotient
  refine ⟨n, hproper, by rw [htext, String.toList_ofList], ?_⟩
  rw [htext, readNumber, htrim, read_numeral hproper hl.isMark]
  exact ofDigits_of_rounds hcanonical hproper.isDigit hrounds hvalue

/-- **A number is read back from its text**, in either of the built-in locales. -/
theorem readNumber_numberText (hl : l.IsBuiltIn) {x : Float} (hx : IsUnsigned x) :
    l.readNumber (l.numberText x) = some x := by
  obtain ⟨n, -, -, hread⟩ := numeral_of_numberText hl hx
  exact hread

theorem gathers_digits (hl : l.IsBuiltIn) {cs : List Char} (h : ∀ c ∈ cs, c.isDigit = true ∨ c = l.decimal) :
    Lexer.Gathers l cs := by
  induction cs using List.reverseRecOn with
  | nil => exact .nil
  | append_singleton cs c ih =>
    exact (ih fun d hd => h d (List.mem_append_left _ hd)).char
      (Or.inl (hl.isSpecial_eq_false (h c (List.mem_append_right _ List.mem_cons_self))))

/-- An operand that ends in a digit awaits no exponent. -/
theorem awaitsExponent_of_isDigit {cs : List Char} (h : ∀ c ∈ cs.getLast?, c.isDigit = true) (mark : Char) :
    Lexer.awaitsExponent mark cs = false := by
  unfold Lexer.awaitsExponent
  split
  · next c d cs =>
    have hdigit := h ((d :: cs).getLast (List.cons_ne_nil _ _)) (by
      rw [List.getLast?_cons_cons, List.getLast?_eq_some_getLast (List.cons_ne_nil _ _)]
      rfl)
    have hletter : ((d :: cs).getLast (List.cons_ne_nil _ _) == 'E' ||
        (d :: cs).getLast (List.cons_ne_nil _ _) == 'e') = false := by
      rw [Bool.or_eq_false_iff, beq_eq_false_iff_ne, beq_eq_false_iff_ne]
      constructor
      · intro heq
        rw [heq] at hdigit
        cases hdigit
      · intro heq
        rw [heq] at hdigit
        cases hdigit
    dsimp only
    rw [hletter, Bool.and_false, Bool.false_and]
  · rfl

/-- **In a formula the text of a number is a single operand**, when something follows that ends an
operand. -/
theorem fits_numberText (hl : l.IsBuiltIn) {x : Float} (hx : IsUnsigned x) (context : Lexer.Context)
    {rest : List Char} (hrest : ∀ c ∈ rest.head?, Lexer.endsOperand l.separator c = true) :
    Lexer.Fits l context ⟨[], (l.numberText x).toList, .operand, .number⟩ rest := by
  obtain ⟨n, hproper, hchars, hread⟩ := numeral_of_numberText hl hx
  obtain ⟨c, cs, hcs, hdigit⟩ := hproper.exists_cons l.decimal
  have hne : (l.numberText x).toList ≠ [] := by
    rw [hchars, hcs]
    exact List.cons_ne_nil _ _
  have hcuts : Lexer.Cuts l (l.numberText x).toList rest := by
    match rest with
    | [] => trivial
    | d :: rest =>
      refine Or.inl ⟨hrest d rfl, fun hsign => ?_⟩
      have hawaits := hsign.2
      rw [hchars, awaitsExponent_of_isDigit (hproper.isDigit_getLast? l.decimal)] at hawaits
      cases hawaits
  have hrole : Lexer.operandRole l (l.numberText x).toList = .number := by
    have hmem : c ∈ (String.ofList (c :: cs)).toList := by
      rw [String.toList_ofList]
      exact List.mem_cons_self
    obtain ⟨htrue, hfalse⟩ := Reference.not_logical_of_mem hmem (Or.inl hdigit)
    have hquote : c ≠ '"' ∧ c ≠ '#' := by
      constructor <;> rintro rfl <;> cases hdigit
    have hsame : String.ofList (c :: cs) = l.numberText x := by rw [← hcs, ← hchars, String.ofList_toList]
    rw [hchars, hcs]
    unfold Lexer.operandRole
    dsimp only
    rw [if_neg hquote.1, if_neg hquote.2, htrue, hfalse, hdigit, hsame, hread]
    rfl
  have hgathers : Lexer.Gathers l (l.numberText x).toList := by
    rw [hchars]
    exact gathers_digits hl fun c => hproper.of_mem_chars
  have hfits := Lexer.Fits.operand (x := context) hgathers hne hcuts
  rw [hrole] at hfits
  exact hfits

end Locale

end Spreadsheet
