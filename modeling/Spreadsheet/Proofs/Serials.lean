import Spreadsheet.Proofs.Doubles
import Spreadsheet.Proofs.Rolling

/-!
# Serials: dates survive their numbers

The serial of a date is a whole number below `2^53`, so it is kept exactly and the date is found again at
midnight (`ofSerial?_serial`). From day zero on the serials grow with the dates and leave out no number
but the phantom day's (`exists_serialDay_eq_iff`), which is read as the day before it.
-/

namespace Spreadsheet

namespace Calendar

namespace Date

/-- Whether a date comes before another. -/
def Before (d e : Date) : Prop := Earlier d.year d.month d.day e.year e.month e.day

/-- Day zero: 31 December 1899. -/
def zero : Date := ⟨1899, 12, 31, by decide⟩

theorem dayNumber_zero : zero.dayNumber = epoch := rfl

theorem serialDay_last : last.serialDay = 95051805 := by decide

variable {d e : Date}

/-- The calendar and the day numbers agree on which of two dates comes first. -/
theorem before_iff : d.Before e ↔ d.dayNumber < e.dayNumber := by
  refine ⟨dayNumberOf_lt d.isDay e.isDay, fun hlt => ?_⟩
  by_contra hnot
  have hback : ¬e.Before d := fun h => (dayNumberOf_lt e.isDay d.isDay h).asymm hlt
  have hparts : d.year = e.year ∧ d.month = e.month ∧ d.day = e.day := by
    unfold Before Earlier at hnot hback
    omega
  unfold dayNumber at hlt
  rw [hparts.1, hparts.2.1, hparts.2.2] at hlt
  exact lt_irrefl _ hlt

theorem serialDay_lt (h : d.Before e) : d.serialDay < e.serialDay := by
  have hlt := before_iff.mp h
  unfold serialDay phantomSerial
  dsimp only
  split <;> split <;> omega

theorem serialDay_nonneg_iff : 0 ≤ d.serialDay ↔ ¬d.Before zero := by
  rw [before_iff, dayNumber_zero]
  unfold serialDay phantomSerial
  dsimp only
  split <;> omega

theorem serialDay_le_last (d : Date) : d.serialDay ≤ last.serialDay := by
  have hle := (dayNumber_bounds d).2
  unfold serialDay phantomSerial
  dsimp only
  split <;> split <;> omega

/-- **The whole serial of a date stands for the date.** -/
theorem ofSerialDay?_serialDay (d : Date) : ofSerialDay? d.serialDay = some d := by
  unfold ofSerialDay? serialDay phantomSerial
  dsimp only
  split
  · rw [ofDayNumber?_eq_some_iff]
    omega
  · rw [if_neg (by omega), ofDayNumber?_eq_some_iff]
    omega

/-- **The whole serials of the dates from day zero on** are the natural numbers up to the last one, but for
the phantom day's. -/
theorem exists_serialDay_eq_iff {n : ℤ} : (∃ d : Date, ¬d.Before zero ∧ d.serialDay = n) ↔
    0 ≤ n ∧ n ≤ last.serialDay ∧ n ≠ phantomSerial := by
  constructor
  · rintro ⟨d, hd, rfl⟩
    refine ⟨serialDay_nonneg_iff.mpr hd, serialDay_le_last d, ?_⟩
    unfold serialDay phantomSerial
    dsimp only
    split <;> omega
  · rintro ⟨hnonneg, hlast, hphantom⟩
    have hend : last.serialDay = last.dayNumber - epoch + 1 := by decide
    have hspan : first.dayNumber ≤ epoch ∧ epoch + 60 ≤ last.dayNumber := by decide
    unfold phantomSerial at hphantom
    obtain ⟨d, hd⟩ : ∃ d, ofDayNumber? (if n < 60 then epoch + n else epoch + n - 1) = some d :=
      exists_ofDayNumber? (by split <;> omega) (by split <;> omega)
    rw [ofDayNumber?_eq_some_iff] at hd
    have hserial : d.serialDay = n := by
      unfold serialDay phantomSerial
      split at hd <;> (dsimp only; split <;> omega)
    exact ⟨d, serialDay_nonneg_iff.mp (by omega), hserial⟩

end Date

/-! ### Serials as doubles -/

open Numeric

/-- A whole serial is a moment at midnight. -/
theorem Moment.ofSerial?_ofNat {n : ℕ} (h : n < 2 ^ 53) :
    Moment.ofSerial? (Float.ofNat n) = (Date.ofSerialDay? n).map fun d => ⟨d, Clock.midnight⟩ := by
  obtain ⟨b, hb, -, htruncate⟩ := whole_ofNat h
  have hseconds : Binary.ofFloat? (0 * 86400) = some ⟨false, 0, -1074⟩ := by decide +kernel
  have hround : Binary.roundAbs ⟨false, 0, -1074⟩ = 0 := by decide +kernel
  unfold Moment.ofSerial?
  rw [if_neg (not_ofNat_lt_zero h), hb, fractionOf_ofNat h, hseconds]
  simp only [Option.bind_eq_bind, Option.bind_some, htruncate]
  cases Date.ofSerialDay? n with
  | none => rfl
  | some d =>
    rw [Option.bind_some, dif_pos (by rw [hround]; decide)]
    simp only [hround]
    rfl

namespace Date

variable {d e : Date}

theorem serial_eq (h : ¬d.Before zero) : ∃ n : ℕ, n < 2 ^ 53 ∧ d.serialDay = n ∧ d.serial = Float.ofNat n := by
  obtain ⟨n, hn⟩ := Int.eq_ofNat_of_zero_le (serialDay_nonneg_iff.mpr h)
  have hle := serialDay_le_last d
  rw [serialDay_last] at hle
  refine ⟨n, by omega, hn, ?_⟩
  unfold serial
  rw [hn]
  rfl

/-- **The serial of a date stands for the date at midnight.** -/
theorem ofSerial?_serial (h : ¬d.Before zero) : Moment.ofSerial? d.serial = some ⟨d, Clock.midnight⟩ := by
  obtain ⟨n, hlt, hn, hserial⟩ := serial_eq h
  rw [hserial, Moment.ofSerial?_ofNat hlt, ← hn, ofSerialDay?_serialDay]
  rfl

theorem serial_lt (hd : ¬d.Before zero) (h : d.Before e) : d.serial < e.serial := by
  have hlt := serialDay_lt h
  have he : ¬e.Before zero := by
    rw [← serialDay_nonneg_iff] at hd ⊢
    omega
  obtain ⟨m, -, hm, hserial⟩ := serial_eq hd
  obtain ⟨n, hn', hn, hserial'⟩ := serial_eq he
  rw [hserial, hserial']
  exact ofNat_lt_ofNat (by omega) hn'

end Date

end Calendar

/-! ### Through the functions -/

namespace Function

open Calendar

/-- A date is built from its own parts. -/
theorem builds_self {d : Date} (h : 1900 ≤ d.year) (h' : d.year ≤ 9999) : Builds d.year d.month d.day d := by
  have hyear : meantYear d.year = d.year := if_neg (by omega)
  have hday := d.isDay
  have hdate : IsDate d.year d.month 1 :=
    (isDate_iff _ _ _).mpr ⟨((isDate_iff _ _ _).mp d.isDate).1, hday.month_pos, hday.month_le, le_rfl,
      daysInMonth_pos _ _⟩
  unfold Builds
  rw [hyear]
  refine ⟨by omega, h', ⟨⟨d.year, d.month, 1, hdate⟩, rfl, rfl, ?_⟩, ?_⟩
  · rw [← Date.addDays?_eq_some_iff, Date.addDays?, Date.ofDayNumber?_eq_some_iff]
    have hadd := Date.dayNumberOf_add d.year d.month 1 (d.day - 1)
    rw [Nat.add_sub_cancel' hday.day_pos, Nat.cast_sub hday.day_pos] at hadd
    exact hadd
  · rw [Date.serialDay_nonneg_iff]
    have hzero : Date.zero.year = 1899 := rfl
    rintro (hlt | ⟨heq, -⟩) <;> omega

/-- A part of a date is read off the date's serial. -/
theorem apply_ofMoment {d : Date} (h : ¬d.Before Date.zero) (name : String) (part : Moment → ℤ)
    (locale : Locale) : (ofMoment name part).apply locale [.value (.date d.serial)] =
      .ok (.number (Float.ofInt (part ⟨d, Clock.midnight⟩))) := by
  have hnumber : (Argument.value (.date d.serial)).toNumber locale = .ok d.serial := rfl
  simp only [ofMoment, ofOne, List.headD_cons, hnumber, bind, Except.bind, Date.ofSerial?_serial h]
  rfl

theorem toWord_number {n : ℕ} (h : n < 2 ^ 53) (locale : Locale) :
    Argument.toWord locale (.value (.number (Float.ofNat n))) = .ok (Int64.ofInt n) :=
  congrArg Except.ok (Numeric.truncateToWord_ofNat h)

end Function

open Calendar

/-- **Dates survive their serials.** From day zero on, a date comes back from its serial at midnight, and the
serial is a whole number; serials grow with the dates; they are the natural numbers up to the last date's,
but for 60, which is read as 28 February 1900; and `YEAR`, `MONTH` and `DAY` take apart again what `DATE`
puts together, given any arguments that stand for the three parts, their numbers among them. -/
theorem dates_survive :
    (∀ d : Date, ¬d.Before Date.zero →
      Moment.ofSerial? d.serial = some ⟨d, Clock.midnight⟩ ∧
        ∃ b, Numeric.Binary.ofFloat? d.serial = some b ∧ b.isWhole = true ∧ b.truncate = d.serialDay) ∧
    (∀ d e : Date, ¬d.Before Date.zero → d.Before e → d.serialDay < e.serialDay ∧ d.serial < e.serial) ∧
    (∀ n : ℤ, (∃ d : Date, ¬d.Before Date.zero ∧ d.serialDay = n) ↔
      0 ≤ n ∧ n ≤ Date.last.serialDay ∧ n ≠ 60) ∧
    Moment.ofSerial? 60 = some ⟨⟨1900, 2, 28, by decide⟩, Clock.midnight⟩ ∧
    ∀ (locale : Locale) (y : ℤ) (m d : ℕ), IsDay y m d → 1900 ≤ y → y ≤ 9999 →
      (∀ n ∈ [y.toNat, m, d],
        Argument.toWord locale (.value (.number (Float.ofNat n))) = .ok (Int64.ofInt n)) ∧
      ∀ a b c : Argument, a.toWord locale = .ok (Int64.ofInt y) → b.toWord locale = .ok (Int64.ofInt m) →
        c.toWord locale = .ok (Int64.ofInt d) →
        ∃ v, Function.date.apply locale [a, b, c] = .ok v ∧
          Function.year.apply locale [.value v] = .ok (.number (Float.ofInt y)) ∧
          Function.month.apply locale [.value v] = .ok (.number (Float.ofInt m)) ∧
          Function.day.apply locale [.value v] = .ok (.number (Float.ofInt d)) := by
  refine ⟨fun d hd => ⟨Date.ofSerial?_serial hd, ?_⟩, fun d e hd h => ⟨Date.serialDay_lt h, Date.serial_lt hd h⟩,
    fun n => Date.exists_serialDay_eq_iff, ?_, ?_⟩
  · obtain ⟨n, hlt, hn, hserial⟩ := Date.serial_eq hd
    rw [hserial, hn]
    exact Numeric.whole_ofNat hlt
  · exact Moment.ofSerial?_ofNat (n := 60) (by norm_num)
  · intro locale y m d hday hlow hhigh
    have hm := hday.month_le
    have hd : d ≤ 31 := hday.day_le.trans (by unfold daysInMonth; split_ifs <;> omega)
    refine ⟨?_, fun a b c ha hb hc => ?_⟩
    · intro n hn
      refine Function.toWord_number ?_ locale
      simp only [List.mem_cons, List.not_mem_nil, or_false] at hn
      omega
    · have hdate : IsDate y m d := by
        rw [isDate_iff]
        exact ⟨⟨by unfold firstYear; omega, by unfold lastYear; omega⟩, hday⟩
      have hbuilds := Function.builds_self (d := ⟨y, m, d, hdate⟩) hlow hhigh
      have hzero : ¬Date.Before ⟨y, m, d, hdate⟩ Date.zero := Date.serialDay_nonneg_iff.mp hbuilds.2.2.2
      refine ⟨_, ?_, Function.apply_ofMoment hzero .., Function.apply_ofMoment hzero ..,
        Function.apply_ofMoment hzero ..⟩
      rw [Function.apply_date ha hb hc]
      apply Function.dateOf_of_builds
      rw [Int64.toInt_ofInt_of_le (by omega) (by omega), Int64.toInt_ofInt_of_le (by omega) (by omega),
        Int64.toInt_ofInt_of_le (by omega) (by omega)]
      exact hbuilds

/-- The leap day of 2000. -/
theorem dates_survive_leapDay :
    let d : Date := ⟨2000, 2, 29, by decide⟩
    let args : List Argument := [.value (.number 2000), .value (.number 2), .value (.number 29)]
    ¬d.Before Date.zero ∧ IsDay 2000 2 29 ∧ Moment.ofSerial? d.serial = some ⟨d, Clock.midnight⟩ ∧
      ∃ v, Function.date.apply .invariant args = .ok v ∧
        Function.year.apply .invariant [.value v] = .ok (.number 2000) ∧
        Function.month.apply .invariant [.value v] = .ok (.number 2) ∧
        Function.day.apply .invariant [.value v] = .ok (.number 29) := by
  intro d args
  have hstart : ¬d.Before Date.zero := Date.serialDay_nonneg_iff.mp (by decide)
  have hday : IsDay 2000 2 29 := d.isDay
  obtain ⟨hserial, -, -, -, hparts⟩ := dates_survive
  obtain ⟨hwords, hdate⟩ := hparts .invariant 2000 2 29 hday (by decide) (by decide)
  simp only [List.forall_mem_cons] at hwords
  exact ⟨hstart, hday, (hserial d hstart).1, hdate _ _ _ hwords.1 hwords.2.1 hwords.2.2.1⟩

end Spreadsheet
