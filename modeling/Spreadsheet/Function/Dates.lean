import Spreadsheet.Function.Basic
import Spreadsheet.Calendar.Serial

/-!
# Functions over dates and times

A date is built from a year, a month and a day, where months and days outside of their usual range roll
over into other months and years. All three are machine words of 64 bits, and so is the count of months
that they give. Parts of dates and times are read off a serial number.
-/

namespace Spreadsheet

namespace Function

open Calendar

/-- A year below this one counts from it. -/
def baseYear : Int64 := 1900

/-- The year meant by a number. -/
def fullYear (year : Int64) : Int64 :=
  if 0 ≤ year ∧ year < baseYear then year + baseYear else year

/-- Months from the start of year zero to a month of a year. -/
def monthsOf (year month : Int64) : Int64 := year * 12 + (month - 1)

/-- The date reached from the first day of a month by going on `day - 1` days. -/
def rolledDate? (months day : Int64) : Option Date := do
  let first ← Date.ofParts? (months.toInt / 12) ((months.toInt % 12).toNat + 1) 1
  first.addDays? (day - 1).toInt

/-- The date of a year, a month and a day that roll over. -/
def dateOf (year month day : Int64) : Except ErrorValue Value :=
  let year := fullYear year
  if year < 0 ∨ 9999 < year then .error (Cause.yearOutOfRange year.toInt).toError
  else
    match rolledDate? (monthsOf year month) day with
    | some d => if d.serialDay < 0 then .error Cause.dateOutOfRange.toError else .ok (.date d.serial)
    | none => .error Cause.dateOutOfRange.toError

/-- A date from year, month and day. -/
def date : Function :=
  .ofThree "DATE" { numeric := true } fun locale a b c => do
    let year ← a.toWord locale
    let month ← b.toWord locale
    let day ← c.toWord locale
    dateOf year month day

/-- An integer, if it fits into a machine word. -/
def word? (n : Int) : Option Int :=
  if Numeric.leastWord ≤ n ∧ n ≤ Numeric.greatestWord then some n else none

/-- The seconds of hours, minutes and seconds, if every step of the sum fits into a machine word. -/
def secondsOf? (hour minute second : Int) : Option Int := do
  let hours ← word? (hour * 3600)
  let minutes ← word? (minute * 60)
  let sum ← word? (hours + minutes)
  word? (sum + second)

/-- The time of day after hours, minutes and seconds; whole days do not count. -/
def timeOf (hour minute second : Int) : Except ErrorValue Value :=
  match secondsOf? hour minute second with
  | none => .error Cause.timeOutOfRange.toError
  | some seconds =>
    if seconds < 0 then .error Cause.negativeTime.toError
    else .ok (.time (Float.ofInt (seconds % 86400) / 86400))

/-- A time from hour, minute and second. -/
def time : Function :=
  .ofThree "TIME" { numeric := true } fun locale a b c => do
    let hour ← a.toWord locale
    let minute ← b.toWord locale
    let second ← c.toWord locale
    timeOf hour.toInt minute.toInt second.toInt

/-- A function that reads a part off the moment that a serial number stands for. -/
def ofMoment (name : String) (part : Moment → Int) : Function :=
  .ofOne name { numeric := true } fun locale a => do
    let x ← a.toNumber locale
    match Moment.ofSerial? x with
    | some m => pure (.number (Float.ofInt (part m)))
    | none => .error (Cause.noMoment x).toError

/-- The year of a date. -/
def year : Function := ofMoment "YEAR" fun m => m.date.year

/-- The month of a date. -/
def month : Function := ofMoment "MONTH" fun m => m.date.month

/-- The day of a date. -/
def day : Function := ofMoment "DAY" fun m => m.date.day

/-- The hour of a time. -/
def hour : Function := ofMoment "HOUR" fun m => m.clock.hour

/-- The minute of a time. -/
def minute : Function := ofMoment "MINUTE" fun m => m.clock.minute

/-- The second of a time. -/
def second : Function := ofMoment "SECOND" fun m => m.clock.second

/-- The functions over dates and times. -/
def dates : List Function := [date, time, year, month, day, hour, minute, second]

end Function

end Spreadsheet
