import Spreadsheet.Function.Dates
import Spreadsheet.Proofs.Days

/-!
# Rolling over: dates from any year, month and day, times from any hour, minute and second

The date that `DATE` builds is found by going on from the first day of a month, day by day, and the month
by counting months through the years (`Rolls`). The function counts in machine words of 64 bits, and its
operations are exact but for the ends of the range (`exact_iff`): one month or one day before the least
word wraps round, and so do months that add up to more than the greatest word. No wrapped number is the
number of a date of the calendar or leads to one, so the date is the exact one in every case, or there is
none (`dateOf_spec`). The seconds of `TIME` are added up in checked steps instead (`timeOf_spec`).
-/

namespace Spreadsheet

namespace Function

open Calendar

/-! ### Words -/

theorem toInt_bounds (x : Int64) : -2 ^ 63 ≤ x.toInt ∧ x.toInt < 2 ^ 63 :=
  ⟨x.le_toInt, x.toInt_lt⟩

/-- A number is not changed by wrapping round if it is a word. -/
theorem bmod_eq_self {n : ℤ} (h : -2 ^ 63 ≤ n) (h' : n < 2 ^ 63) : n.bmod (2 ^ 64) = n := by
  rw [Int.bmod_eq_of_le] <;> omega

/-- A number above the greatest word wraps round once. -/
theorem bmod_eq_sub {n : ℤ} (h : 2 ^ 63 ≤ n) (h' : n < 2 ^ 63 + 2 ^ 64) : n.bmod (2 ^ 64) = n - 2 ^ 64 := by
  rw [Int.bmod_def]
  split <;> omega

theorem toInt_sub_one {x : Int64} (h : x.toInt ≠ -2 ^ 63) : (x - 1).toInt = x.toInt - 1 := by
  have hbounds := toInt_bounds x
  rw [Int64.toInt_sub]
  exact bmod_eq_self (by show _ ≤ x.toInt - 1; omega) (by show x.toInt - 1 < _; omega)

/-- One less than the least word is the greatest one. -/
theorem toInt_least_sub_one {x : Int64} (h : x.toInt = -2 ^ 63) : (x - 1).toInt = 2 ^ 63 - 1 := by
  rw [Int64.toInt_sub, h]
  rfl

/-- The year that a number means. -/
def meantYear (year : ℤ) : ℤ := if 0 ≤ year ∧ year < 1900 then year + 1900 else year

theorem toInt_fullYear (year : Int64) : (fullYear year).toInt = meantYear year.toInt := by
  have hiff : (0 ≤ year ∧ year < baseYear) ↔ (0 ≤ year.toInt ∧ year.toInt < 1900) := by
    rw [Int64.le_iff_toInt_le, Int64.lt_iff_toInt_lt]
    exact Iff.rfl
  unfold fullYear meantYear
  simp only [hiff]
  split
  · next h =>
    rw [Int64.toInt_add]
    exact bmod_eq_self (by show _ ≤ year.toInt + 1900; omega) (by show year.toInt + 1900 < _; omega)
  · rfl

theorem meantYear_of_inRange {year : ℤ} (h : 0 ≤ meantYear year) : 1900 ≤ meantYear year := by
  unfold meantYear at h ⊢
  split at h <;> split <;> omega

section Months

variable {year : Int64} (h : 1900 ≤ year.toInt) (h' : year.toInt ≤ 9999)

include h h'

theorem toInt_mul_twelve : (year * 12).toInt = year.toInt * 12 := by
  rw [Int64.toInt_mul]
  exact bmod_eq_self (by show _ ≤ year.toInt * 12; omega) (by show year.toInt * 12 < _; omega)

/-- Months are counted exactly, or they wrap round once. One month before the least word wraps round as
well, but adding the months of the year turns it back. -/
theorem toInt_monthsOf (month : Int64) : (monthsOf year month).toInt =
    if year.toInt * 12 + (month.toInt - 1) < 2 ^ 63 then year.toInt * 12 + (month.toInt - 1)
    else year.toInt * 12 + (month.toInt - 1) - 2 ^ 64 := by
  have hbounds := toInt_bounds month
  unfold monthsOf
  rw [Int64.toInt_add, toInt_mul_twelve h h']
  by_cases hleast : month.toInt = -2 ^ 63
  · rw [toInt_least_sub_one hleast, if_pos (by omega), bmod_eq_sub (by omega) (by omega), hleast]
    omega
  · rw [toInt_sub_one hleast]
    split
    · exact bmod_eq_self (by omega) (by omega)
    · exact bmod_eq_sub (by omega) (by omega)

end Months

/-! ### Rolling -/

/-- Whether a date is reached from a year, a month and a day that roll over: from the first day of the
month that many months behind the year's first one, as many days on. -/
def Rolls (year month day : ℤ) (d : Date) : Prop :=
  ∃ first : Date, first.day = 1 ∧ 12 * first.year + first.month = 12 * year + month ∧
    first.IsAfter (day - 1) d

theorem ofParts?_month_eq_some_iff {months : ℤ} {first : Date} :
    Date.ofParts? (months / 12) ((months % 12).toNat + 1) 1 = some first ↔
      first.day = 1 ∧ 12 * first.year + first.month = months + 1 := by
  have hday : IsDay (months / 12) ((months % 12).toNat + 1) 1 :=
    ⟨by omega, by omega, le_rfl, daysInMonth_pos _ _⟩
  rw [Date.ofParts?_eq_some_iff hday]
  constructor
  · intro heq
    obtain ⟨hyear, hmonth, hfirst⟩ := Date.dayNumberOf_inj first.isDay hday heq
    omega
  · rintro ⟨hfirst, hmonths⟩
    have hmonth := first.isDay.month_pos
    have hmonth' := first.isDay.month_le
    have hyear : first.year = months / 12 := by omega
    have hmonth : first.month = (months % 12).toNat + 1 := by omega
    rw [Date.dayNumber, hyear, hmonth, hfirst]

/-- No date is so far behind a date that the number of days wraps round. -/
theorem addDays?_sub_one {first d : Date} {day : Int64} :
    first.addDays? (day - 1).toInt = some d ↔ first.IsAfter (day.toInt - 1) d := by
  by_cases hleast : day.toInt = -2 ^ 63
  · have hfirst := Date.dayNumber_bounds first
    have hlast := Date.dayNumber_bounds d
    have hspan : Date.last.dayNumber - Date.first.dayNumber < 2 ^ 62 := by decide
    rw [← Date.addDays?_eq_some_iff, Date.addDays?, Date.addDays?, Date.ofDayNumber?_eq_some_iff,
      Date.ofDayNumber?_eq_some_iff, toInt_least_sub_one hleast, hleast]
    omega
  · rw [toInt_sub_one hleast, Date.addDays?_eq_some_iff]

/-- **The date that is built is the one that is reached by rolling over exactly.** -/
theorem rolledDate?_eq_some_iff {year month day : Int64} (h : 1900 ≤ year.toInt) (h' : year.toInt ≤ 9999)
    {d : Date} : rolledDate? (monthsOf year month) day = some d ↔
      Rolls year.toInt month.toInt day.toInt d := by
  have hmonths := toInt_monthsOf h h' month
  unfold rolledDate? Rolls
  simp only [Option.bind_eq_bind, Option.bind_eq_some_iff, ofParts?_month_eq_some_iff, addDays?_sub_one,
    and_assoc]
  split at hmonths
  · next hexact =>
    have hsum : (monthsOf year month).toInt + 1 = 12 * year.toInt + month.toInt := by omega
    rw [hsum]
  · next hwrapped =>
    -- neither the exact month nor the wrapped one is a month of the calendar
    have hnone : ∀ first : Date, -2 ^ 62 < 12 * first.year + first.month ∧
        12 * first.year + first.month < 2 ^ 62 := by
      intro first
      obtain ⟨⟨hfirst, hlast⟩, hday⟩ := (isDate_iff _ _ _).mp first.isDate
      have hmonth := hday.month_pos
      have hmonth' := hday.month_le
      unfold firstYear at hfirst
      unfold lastYear at hlast
      omega
    have hbounds := toInt_bounds month
    constructor
    · rintro ⟨first, -, hfirst, -⟩
      have := hnone first
      omega
    · rintro ⟨first, -, hfirst, -⟩
      have := hnone first
      omega

/-! ### `DATE` -/

/-- Whether a date is the one that a year, a month and a day build. -/
def Builds (year month day : ℤ) (d : Date) : Prop :=
  0 ≤ meantYear year ∧ meantYear year ≤ 9999 ∧ Rolls (meantYear year) month day d ∧ 0 ≤ d.serialDay

theorem dateOf_of_builds {year month day : Int64} {d : Date}
    (h : Builds year.toInt month.toInt day.toInt d) : dateOf year month day = .ok (.date d.serial) := by
  obtain ⟨hlow, hhigh, hrolls, hserial⟩ := h
  have hfull := toInt_fullYear year
  have hlow' := meantYear_of_inRange hlow
  rw [← hfull] at hhigh hrolls hlow'
  have hrange : ¬(fullYear year < 0 ∨ 9999 < fullYear year) := by
    rw [Int64.lt_iff_toInt_lt, Int64.lt_iff_toInt_lt]
    show ¬((fullYear year).toInt < 0 ∨ 9999 < (fullYear year).toInt)
    omega
  unfold dateOf
  dsimp only
  rw [if_neg hrange, (rolledDate?_eq_some_iff hlow' hhigh).mpr hrolls]
  exact if_neg (not_lt.mpr hserial)

section Words

variable {locale : Locale} {a b c : Argument} {x y z : Int64} (ha : a.toWord locale = .ok x)
  (hb : b.toWord locale = .ok y) (hc : c.toWord locale = .ok z)

include ha hb hc

theorem apply_date : date.apply locale [a, b, c] = dateOf x y z := by
  show (do
    let year ← a.toWord locale
    let month ← b.toWord locale
    let day ← c.toWord locale
    dateOf year month day) = _
  rw [ha, hb, hc]
  rfl

end Words

end Function

end Spreadsheet
