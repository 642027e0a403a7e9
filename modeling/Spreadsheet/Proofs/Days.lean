import Mathlib
import Spreadsheet.Calendar.Date

/-!
# Days: the calendar and its numbers

Day numbers follow the calendar: the number of the next day is one more, across the ends of months, of
years and of centuries (`next?_eq_some_iff`). So an earlier day has a smaller number (`dayNumberOf_lt`), and the
numbers of the calendar's days are the integers from its first day to its last, each of them taken apart
into the day that it belongs to (`ofDayNumber?_eq_some_iff`, `exists_ofDayNumber?`). Going on a number of
days is a walk from day to day (`addDays?_eq_some_iff`).
-/

namespace Spreadsheet.Calendar

/-- Whether month and day name a day of a year. -/
structure IsDay (year : ℤ) (month day : ℕ) : Prop where
  month_pos : 1 ≤ month
  month_le : month ≤ 12
  day_pos : 1 ≤ day
  day_le : day ≤ daysInMonth year month

theorem isDate_iff (year : ℤ) (month day : ℕ) :
    IsDate year month day ↔ (firstYear ≤ year ∧ year ≤ lastYear) ∧ IsDay year month day :=
  ⟨fun ⟨h₁, h₂, h₃, h₄, h₅, h₆⟩ => ⟨⟨h₁, h₂⟩, h₃, h₄, h₅, h₆⟩,
    fun ⟨⟨h₁, h₂⟩, h₃, h₄, h₅, h₆⟩ => ⟨h₁, h₂, h₃, h₄, h₅, h₆⟩⟩

/-- Whether one day comes before another. -/
def Earlier (year : ℤ) (month day : ℕ) (year' : ℤ) (month' day' : ℕ) : Prop :=
  year < year' ∨ year = year' ∧ (month < month' ∨ month = month' ∧ day < day')

theorem isLeapYear_iff (year : ℤ) :
    isLeapYear year = true ↔ year % 4 = 0 ∧ (year % 100 ≠ 0 ∨ year % 400 = 0) := by
  simp [isLeapYear]

theorem daysInMonth_pos (year : ℤ) (month : ℕ) : 1 ≤ daysInMonth year month := by
  unfold daysInMonth
  split_ifs <;> omega

/-- The lengths of the months from March to January, which no leap day belongs to. -/
theorem daysInMonth_eq (year : ℤ) {fromMarch : ℕ} (h : fromMarch < 11) :
    daysInMonth year (if fromMarch < 10 then fromMarch + 3 else fromMarch - 9) =
      (153 * (fromMarch + 1) + 2) / 5 - (153 * fromMarch + 2) / 5 := by
  interval_cases fromMarch <;> rfl

namespace Date

theorem isDay (d : Date) : IsDay d.year d.month d.day := ((isDate_iff _ _ _).mp d.isDate).2

/-! ### From day to day -/

theorem dayNumberOf_add (year : ℤ) (month day k : ℕ) :
    dayNumberOf year month (day + k) = dayNumberOf year month day + k := by
  unfold dayNumberOf
  push_cast
  ring

theorem dayNumberOf_month_succ (year : ℤ) {month : ℕ} (h : 1 ≤ month) (h' : month < 12) :
    dayNumberOf year (month + 1) 1 = dayNumberOf year month (daysInMonth year month) + 1 := by
  rcases eq_or_ne month 2 with rfl | hne
  · -- the next year, counted from March, starts behind February
    have hleap := isLeapYear_iff year
    unfold dayNumberOf daysInMonth
    cases hyear : isLeapYear year <;> rw [hyear] at hleap <;> simp at hleap ⊢ <;> omega
  · have hfrom : (month + 1 + 9) % 12 = (month + 9) % 12 + 1 := by omega
    have hmonth : (if (month + 9) % 12 < 10 then (month + 9) % 12 + 3 else (month + 9) % 12 - 9) = month := by
      split <;> omega
    have hlength := daysInMonth_eq year (show (month + 9) % 12 < 11 by omega)
    rw [hmonth] at hlength
    unfold dayNumberOf
    dsimp only
    rw [hfrom, hlength]
    split_ifs <;> omega

theorem dayNumberOf_year_succ (year : ℤ) :
    dayNumberOf (year + 1) 1 1 = dayNumberOf year 12 31 + 1 := by
  unfold dayNumberOf
  simp
  omega

/-! ### Earlier days -/

theorem dayNumberOf_month_mono (year : ℤ) {month month' : ℕ} (hpos : 1 ≤ month) (h : month ≤ month')
    (hle : month' ≤ 12) : dayNumberOf year month 1 ≤ dayNumberOf year month' 1 := by
  induction month', h using Nat.le_induction with
  | base => exact le_rfl
  | succ k hk ih =>
    have hnext := dayNumberOf_month_succ year (hpos.trans hk) hle
    have hlast := dayNumberOf_add year k 1 (daysInMonth year k - 1)
    rw [Nat.add_sub_cancel' (daysInMonth_pos year k)] at hlast
    have := ih (by omega)
    omega

theorem dayNumberOf_year_mono {year year' : ℤ} (h : year ≤ year') :
    dayNumberOf year 1 1 ≤ dayNumberOf year' 1 1 := by
  unfold dayNumberOf
  simp
  omega

section Ends

variable {year : ℤ} {month day : ℕ} (h : IsDay year month day)

include h

theorem dayNumberOf_lt_month (hm : month < 12) :
    dayNumberOf year month day < dayNumberOf year (month + 1) 1 := by
  have hadd := dayNumberOf_add year month day (daysInMonth year month - day)
  rw [Nat.add_sub_cancel' h.day_le] at hadd
  have hnext := dayNumberOf_month_succ year h.month_pos hm
  omega

theorem dayNumberOf_lt_year : dayNumberOf year month day < dayNumberOf (year + 1) 1 1 := by
  have hnext := dayNumberOf_year_succ year
  rcases h.month_le.lt_or_eq with hm | rfl
  · have hlt := dayNumberOf_lt_month h hm
    have hmono := dayNumberOf_month_mono year (Nat.le_add_left 1 month) hm le_rfl
    have hadd := dayNumberOf_add year 12 1 30
    norm_num at hadd
    omega
  · have hday : day ≤ 31 := h.day_le
    have hadd := dayNumberOf_add year 12 day (31 - day)
    rw [Nat.add_sub_cancel' hday] at hadd
    omega

end Ends

section Order

variable {year year' : ℤ} {month day month' day' : ℕ} (h : IsDay year month day)
  (h' : IsDay year' month' day')

include h h'

theorem dayNumberOf_lt (hlt : Earlier year month day year' month' day') :
    dayNumberOf year month day < dayNumberOf year' month' day' := by
  have hfirst := dayNumberOf_add year' month' 1 (day' - 1)
  rw [Nat.add_sub_cancel' h'.day_pos] at hfirst
  rcases hlt with hyear | ⟨rfl, hmonth | ⟨rfl, hday⟩⟩
  · have hlt := dayNumberOf_lt_year h
    have hmono := dayNumberOf_year_mono (Int.add_one_le_of_lt hyear)
    have hmonth := dayNumberOf_month_mono year' le_rfl h'.month_pos h'.month_le
    omega
  · have hlt := dayNumberOf_lt_month h (hmonth.trans_le h'.month_le)
    have hmono := dayNumberOf_month_mono year (Nat.le_add_left 1 month) hmonth h'.month_le
    omega
  · have hadd := dayNumberOf_add year month day (day' - day)
    rw [Nat.add_sub_cancel' hday.le] at hadd
    omega

theorem dayNumberOf_inj (heq : dayNumberOf year month day = dayNumberOf year' month' day') :
    year = year' ∧ month = month' ∧ day = day' := by
  have hnot : ¬Earlier year month day year' month' day' := fun hlt => (dayNumberOf_lt h h' hlt).ne heq
  have hnot' : ¬Earlier year' month' day' year month day := fun hlt => (dayNumberOf_lt h' h hlt).ne heq.symm
  unfold Earlier at hnot hnot'
  omega

end Order

/-! ### Taking day numbers apart -/

/-- A day number as full cycles, centuries, groups of four years, years and days. Only the last year of a
group has 366 days, and only if its century is not full or is the last one of the cycle. -/
structure Split (n cycle : ℤ) (century leapGroup yearOfGroup inYear : ℕ) : Prop where
  sum : n = 146097 * cycle + 36524 * century + 1461 * leapGroup + 365 * yearOfGroup + inYear
  century_le : century ≤ 3
  leapGroup_le : leapGroup ≤ 24
  yearOfGroup_le : yearOfGroup ≤ 3
  inYear_le : inYear ≤ 365
  leapDay : inYear = 365 → yearOfGroup = 3 ∧ (leapGroup = 24 → century = 3)

theorem split_of (n : ℤ) :
    let cycle := n / 146097
    let inCycle := (n % 146097).toNat
    let century := min (inCycle / 36524) 3
    let inCentury := inCycle - 36524 * century
    let leapGroup := inCentury / 1461
    let inGroup := inCentury - 1461 * leapGroup
    let yearOfGroup := min (inGroup / 365) 3
    Split n cycle century leapGroup yearOfGroup (inGroup - 365 * yearOfGroup) := by
  intro cycle inCycle century inCentury leapGroup inGroup yearOfGroup
  constructor <;> omega

theorem isDay_of_month {marchYear : ℤ} {inYear fromMarch : ℕ} (hinYear : inYear ≤ 365)
    (hlow : 153 * fromMarch ≤ 5 * inYear + 2) (hhigh : 5 * inYear + 2 < 153 * fromMarch + 153)
    (hleap : inYear = 365 → isLeapYear (marchYear + 1) = true) :
    let month := if fromMarch < 10 then fromMarch + 3 else fromMarch - 9
    let year := if month ≤ 2 then marchYear + 1 else marchYear
    let day := inYear - (153 * fromMarch + 2) / 5 + 1
    IsDay year month day ∧ dayNumberOf year month day =
      365 * marchYear + marchYear / 4 - marchYear / 100 + marchYear / 400 + inYear := by
  intro month year day
  have hmonth : month = if fromMarch < 10 then fromMarch + 3 else fromMarch - 9 := rfl
  have hyear : year = if month ≤ 2 then marchYear + 1 else marchYear := rfl
  have hday : day = inYear - (153 * fromMarch + 2) / 5 + 1 := rfl
  have hle : fromMarch ≤ 11 := by omega
  clear_value month year day
  have hcases : fromMarch < 10 ∧ month = fromMarch + 3 ∨ 10 ≤ fromMarch ∧ month + 9 = fromMarch := by
    split at hmonth <;> omega
  constructor
  · refine ⟨by omega, by omega, by omega, ?_⟩
    rcases Nat.lt_or_ge fromMarch 11 with hlt | hge
    · rw [hmonth, daysInMonth_eq year hlt]
      omega
    · obtain rfl : fromMarch = 11 := by omega
      obtain rfl : month = 2 := hmonth
      obtain rfl : year = marchYear + 1 := hyear
      show day ≤ if isLeapYear (marchYear + 1) then 29 else 28
      split
      · omega
      · next h =>
        have := mt hleap h
        omega
  · have hfrom : (month + 9) % 12 = fromMarch := by omega
    unfold dayNumberOf
    dsimp only
    rw [hfrom]
    split_ifs at hyear ⊢ <;> omega

theorem isDay_of_split {n cycle : ℤ} {century leapGroup yearOfGroup inYear : ℕ}
    (h : Split n cycle century leapGroup yearOfGroup inYear) :
    let fromMarch := (5 * inYear + 2) / 153
    let day := inYear - (153 * fromMarch + 2) / 5 + 1
    let month := if fromMarch < 10 then fromMarch + 3 else fromMarch - 9
    let marchYear := 400 * cycle + 100 * century + 4 * leapGroup + yearOfGroup
    let year := if month ≤ 2 then marchYear + 1 else marchYear
    IsDay year month day ∧ dayNumberOf year month day = n := by
  obtain ⟨hsum, hcentury, hleapGroup, hyearOfGroup, hinYear, hleapDay⟩ := h
  intro fromMarch day month marchYear year
  have hleap : inYear = 365 → isLeapYear (marchYear + 1) = true := by
    intro hday
    rw [isLeapYear_iff]
    omega
  have hstart : 365 * marchYear + marchYear / 4 - marchYear / 100 + marchYear / 400 + inYear = n := by
    omega
  have hmonth := @isDay_of_month marchYear inYear fromMarch hinYear (by omega) (by omega) hleap
  exact ⟨hmonth.1, hmonth.2.trans hstart⟩

theorem ofDayNumber?_eq (n : ℤ) : ∃ year month day, IsDay year month day ∧
    dayNumberOf year month day = n ∧ ofDayNumber? n = ofParts? year month day := by
  obtain ⟨hday, hnumber⟩ := isDay_of_split (split_of n)
  exact ⟨_, _, _, hday, hnumber, rfl⟩

theorem ofParts?_eq_some_iff {year : ℤ} {month day : ℕ} (h : IsDay year month day) {d : Date} :
    ofParts? year month day = some d ↔ d.dayNumber = dayNumberOf year month day := by
  rw [ofParts?]
  constructor
  · intro heq
    split at heq
    · obtain rfl := Option.some.inj heq
      rfl
    · cases heq
  · intro heq
    obtain ⟨year', month', day', hdate⟩ := d
    obtain ⟨rfl, rfl, rfl⟩ := dayNumberOf_inj ((isDate_iff _ _ _).mp hdate).2 h heq
    exact dif_pos hdate

/-- **A day number belongs to the date that has it.** -/
theorem ofDayNumber?_eq_some_iff {n : ℤ} {d : Date} : ofDayNumber? n = some d ↔ d.dayNumber = n := by
  obtain ⟨year, month, day, hday, hnumber, heq⟩ := ofDayNumber?_eq n
  rw [heq, ofParts?_eq_some_iff hday, hnumber]

theorem eq_of_dayNumber_eq {d e : Date} (h : d.dayNumber = e.dayNumber) : d = e :=
  Option.some.inj ((ofDayNumber?_eq_some_iff.mpr h).symm.trans (ofDayNumber?_eq_some_iff.mpr rfl))

/-- The first day of the calendar. -/
def first : Date := ⟨firstYear, 1, 1, by decide⟩

/-- The last day of the calendar. -/
def last : Date := ⟨lastYear, 12, 31, by decide⟩

theorem dayNumber_bounds (d : Date) : first.dayNumber ≤ d.dayNumber ∧ d.dayNumber ≤ last.dayNumber := by
  obtain ⟨⟨hfirst, hlast⟩, hday⟩ := (isDate_iff _ _ _).mp d.isDate
  have hnumber : d.dayNumber = dayNumberOf d.year d.month d.day := rfl
  constructor
  · have hyear := dayNumberOf_year_mono hfirst
    have hmonth := dayNumberOf_month_mono d.year le_rfl hday.month_pos hday.month_le
    have hadd := dayNumberOf_add d.year d.month 1 (d.day - 1)
    rw [Nat.add_sub_cancel' hday.day_pos] at hadd
    have hstart : first.dayNumber = dayNumberOf firstYear 1 1 := rfl
    omega
  · have hlt := dayNumberOf_lt_year hday
    have hmono := dayNumberOf_year_mono (show d.year + 1 ≤ lastYear + 1 by omega)
    have hend : dayNumberOf (lastYear + 1) 1 1 = last.dayNumber + 1 := dayNumberOf_year_succ lastYear
    omega

/-- Every integer from the calendar's first day to its last is the number of a date. -/
theorem exists_ofDayNumber? {n : ℤ} (hfirst : first.dayNumber ≤ n) (hlast : n ≤ last.dayNumber) :
    ∃ d, ofDayNumber? n = some d := by
  obtain ⟨year, month, day, hday, hnumber, heq⟩ := ofDayNumber?_eq n
  have hdate : IsDate year month day := by
    rw [isDate_iff]
    refine ⟨⟨?_, ?_⟩, hday⟩
    · by_contra hlt
      have hend := dayNumberOf_lt_year hday
      have hmono := dayNumberOf_year_mono (show year + 1 ≤ firstYear by omega)
      have hstart : first.dayNumber = dayNumberOf firstYear 1 1 := rfl
      omega
    · by_contra hlt
      have hend : last.dayNumber < dayNumberOf year month day := dayNumberOf_lt last.isDay hday (.inl (by
        show lastYear < year
        omega))
      omega
  exact ⟨⟨year, month, day, hdate⟩, heq.trans (dif_pos hdate)⟩

/-! ### Walking from day to day -/

/-- The next day, by the calendar. -/
def next? (d : Date) : Option Date :=
  if d.day < daysInMonth d.year d.month then ofParts? d.year d.month (d.day + 1)
  else if d.month < 12 then ofParts? d.year (d.month + 1) 1
  else ofParts? (d.year + 1) 1 1

/-- The day that a number of days leads to. -/
def walk? (d : Date) : ℕ → Option Date
  | 0 => some d
  | k + 1 => (d.walk? k).bind next?

/-- Whether one day lies a number of days behind another, or before it if the number is negative. -/
def IsAfter (d : Date) (k : ℤ) (e : Date) : Prop :=
  if 0 ≤ k then d.walk? k.toNat = some e else e.walk? (-k).toNat = some d

theorem next?_eq (d : Date) : ∃ year month day, IsDay year month day ∧
    dayNumberOf year month day = d.dayNumber + 1 ∧ d.next? = ofParts? year month day := by
  have hday := d.isDay
  have hnumber : d.dayNumber = dayNumberOf d.year d.month d.day := rfl
  unfold next?
  split
  · next hlt =>
    exact ⟨_, _, _, ⟨hday.month_pos, hday.month_le, Nat.le_add_left 1 _, hlt⟩, dayNumberOf_add _ _ _ 1, rfl⟩
  · next hlast =>
    have heq : d.day = daysInMonth d.year d.month := le_antisymm hday.day_le (not_lt.mp hlast)
    rw [heq] at hnumber
    split
    · next hmonth =>
      refine ⟨_, _, _, ⟨Nat.le_add_left 1 _, hmonth, le_rfl, daysInMonth_pos _ _⟩, ?_, rfl⟩
      rw [hnumber]
      exact dayNumberOf_month_succ d.year hday.month_pos hmonth
    · next hmonth =>
      have hend : d.month = 12 := le_antisymm hday.month_le (not_lt.mp hmonth)
      rw [hend] at hnumber
      refine ⟨_, _, _, ⟨le_rfl, by decide, le_rfl, daysInMonth_pos _ _⟩, ?_, rfl⟩
      rw [hnumber]
      exact dayNumberOf_year_succ d.year

/-- **The number of the next day is one more.** -/
theorem next?_eq_some_iff {d e : Date} : d.next? = some e ↔ e.dayNumber = d.dayNumber + 1 := by
  obtain ⟨year, month, day, hday, hnumber, heq⟩ := next?_eq d
  rw [heq, ofParts?_eq_some_iff hday, hnumber]

theorem walk?_eq_some_iff {d e : Date} {k : ℕ} : d.walk? k = some e ↔ e.dayNumber = d.dayNumber + k := by
  induction k generalizing e with
  | zero =>
    rw [walk?, Option.some_inj, Nat.cast_zero, add_zero]
    exact ⟨fun h => by rw [h], fun h => (eq_of_dayNumber_eq h).symm⟩
  | succ k ih =>
    rw [walk?, Option.bind_eq_some_iff]
    simp only [ih, next?_eq_some_iff]
    constructor
    · rintro ⟨f, hf, he⟩
      push_cast
      omega
    · intro he
      push_cast at he
      -- the day before the last one lies between two days of the calendar
      obtain ⟨f, hf⟩ : ∃ f, ofDayNumber? (d.dayNumber + k) = some f := by
        have hfirst := (dayNumber_bounds d).1
        have hlast := (dayNumber_bounds e).2
        exact exists_ofDayNumber? (by omega) (by omega)
      rw [ofDayNumber?_eq_some_iff] at hf
      exact ⟨f, hf, by omega⟩

/-- **Going on a number of days is a walk from day to day**, forwards or backwards. -/
theorem addDays?_eq_some_iff {d e : Date} {k : ℤ} : d.addDays? k = some e ↔ d.IsAfter k e := by
  rw [addDays?, ofDayNumber?_eq_some_iff, IsAfter]
  split <;> rw [walk?_eq_some_iff] <;> omega

end Date

end Spreadsheet.Calendar
