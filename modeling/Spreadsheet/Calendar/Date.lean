/-!
# The calendar

Dates of the proleptic Gregorian calendar, numbered day by day. Counting starts on 1 March of year 0,
so that the leap day is the last day of its year: a cycle of 400 years has 146097 days, each of its
first three centuries 36524, each full group of four years 1461. `dayNumber` adds these up and
`ofDayNumber?` takes them apart again. The calendar has a first and a last year.
-/

namespace Spreadsheet.Calendar

/-- The first year of the calendar. -/
def firstYear : Int := -262143

/-- The last year of the calendar. -/
def lastYear : Int := 262142

/-- Every fourth year, but of the full centuries only every fourth. -/
def isLeapYear (year : Int) : Bool :=
  year % 4 == 0 && (year % 100 != 0 || year % 400 == 0)

/-- The number of days of a month, 1 to 12. -/
def daysInMonth (year : Int) (month : Nat) : Nat :=
  if month = 2 then (if isLeapYear year then 29 else 28)
  else if month = 4 ∨ month = 6 ∨ month = 9 ∨ month = 11 then 30
  else 31

/-- Whether year, month and day name a date of the calendar. -/
def IsDate (year : Int) (month day : Nat) : Prop :=
  firstYear ≤ year ∧ year ≤ lastYear ∧ 1 ≤ month ∧ month ≤ 12 ∧ 1 ≤ day ∧
    day ≤ daysInMonth year month

instance (year : Int) (month day : Nat) : Decidable (IsDate year month day) := by
  unfold IsDate; infer_instance

/-- A date of the calendar. -/
structure Date where
  year : Int
  month : Nat
  day : Nat
  isDate : IsDate year month day

namespace Date

/-- The date with the given year, month and day, if there is one. -/
def ofParts? (year : Int) (month day : Nat) : Option Date :=
  if h : IsDate year month day then some ⟨year, month, day, h⟩ else none

/-- Days from 1 March of year 0 to the given day, months being counted from March. -/
def dayNumberOf (year : Int) (month day : Nat) : Int :=
  let fromMarch := (month + 9) % 12
  let marchYear := if month ≤ 2 then year - 1 else year
  365 * marchYear + marchYear / 4 - marchYear / 100 + marchYear / 400 +
    ((153 * fromMarch + 2) / 5 : Nat) + ((day : Int) - 1)

/-- Days from 1 March of year 0. -/
def dayNumber (d : Date) : Int :=
  dayNumberOf d.year d.month d.day

/-- The date with a day number, unless it lies outside the calendar. -/
def ofDayNumber? (n : Int) : Option Date :=
  let cycle := n / 146097
  let inCycle := (n % 146097).toNat
  let century := min (inCycle / 36524) 3
  let inCentury := inCycle - 36524 * century
  let leapGroup := inCentury / 1461
  let inGroup := inCentury - 1461 * leapGroup
  let yearOfGroup := min (inGroup / 365) 3
  let inYear := inGroup - 365 * yearOfGroup
  let fromMarch := (5 * inYear + 2) / 153
  let day := inYear - (153 * fromMarch + 2) / 5 + 1
  let month := if fromMarch < 10 then fromMarch + 3 else fromMarch - 9
  let marchYear := 400 * cycle + 100 * century + 4 * leapGroup + yearOfGroup
  ofParts? (if month ≤ 2 then marchYear + 1 else marchYear) month day

/-- The date a number of days later. -/
def addDays? (d : Date) (days : Int) : Option Date :=
  ofDayNumber? (d.dayNumber + days)

end Date

/-- Digits of a number, with zeros in front up to a width. -/
def padded (width n : Nat) : List Char :=
  let ds := Nat.toDigits 10 n
  List.replicate (width - ds.length) '0' ++ ds

/-- A year has four digits; outside of 0 to 9999 it also has a sign. -/
def yearText (year : Int) : List Char :=
  if 0 ≤ year ∧ year ≤ 9999 then padded 4 year.toNat
  else (if year < 0 then '-' else '+') :: padded 4 year.natAbs

/-- A date as year, month and day with hyphens. -/
def Date.text (d : Date) : String :=
  String.ofList (yearText d.year ++ '-' :: padded 2 d.month ++ '-' :: padded 2 d.day)

/-- A time of day, in seconds from midnight. -/
structure Clock where
  seconds : Nat
  seconds_lt : seconds < 86400

namespace Clock

/-- The time of day with the given hour, minute and second, if there is one. -/
def ofParts? (hour minute second : Nat) : Option Clock :=
  if h : hour < 24 ∧ minute < 60 ∧ second < 60 then
    some ⟨3600 * hour + 60 * minute + second, by omega⟩
  else none

/-- Midnight, the start of a day. -/
def midnight : Clock := ⟨0, by decide⟩

/-- The hour of the day. -/
def hour (t : Clock) : Nat := t.seconds / 3600

/-- The minute of the hour. -/
def minute (t : Clock) : Nat := t.seconds / 60 % 60

/-- The second of the minute. -/
def second (t : Clock) : Nat := t.seconds % 60

/-- A time as hour, minute and second with colons. -/
def text (t : Clock) : String :=
  String.ofList (padded 2 t.hour ++ ':' :: padded 2 t.minute ++ ':' :: padded 2 t.second)

end Clock

end Spreadsheet.Calendar
