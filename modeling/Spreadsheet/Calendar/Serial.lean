import Spreadsheet.Calendar.Date
import Spreadsheet.Numeric.Binary

/-!
# Serial numbers of dates and times

A moment is a number: whole days since 31 December 1899, and the time of day as a fraction of a day.
Day 60 is the 29 February 1900 that never was. It is read as the 28th, and no date is written as 60,
so every date from 1 March 1900 on is numbered one higher than the days that have passed.
-/

namespace Spreadsheet.Calendar

/-- The day number of 31 December 1899, the day with serial zero. -/
def epoch : Int := Date.dayNumberOf 1899 12 31

/-- The serial that stands for the day between 28 February and 1 March 1900. -/
def phantomSerial : Int := 60

/-- The whole serial of a date. -/
def Date.serialDay (d : Date) : Int :=
  let days := d.dayNumber - epoch
  if days < phantomSerial then days else days + 1

/-- The date that a whole serial stands for. -/
def Date.ofSerialDay? (serial : Int) : Option Date :=
  if serial < phantomSerial then ofDayNumber? (epoch + serial)
  else ofDayNumber? (epoch + (serial - 1))

/-- A date together with a time of day. -/
structure Moment where
  date : Date
  clock : Clock

/-- The serial of a date. -/
def Date.serial (d : Date) : Float :=
  Float.ofInt d.serialDay

/-- The fraction of a day that has passed at a time of day. -/
def Clock.serial (t : Clock) : Float :=
  Float.ofNat t.seconds / 86400

/-- The serial of a moment. -/
def Moment.serial (m : Moment) : Float :=
  m.date.serial + m.clock.serial

/-- The moment a serial stands for, to the nearest second; a fraction that rounds up to a whole day
gives midnight of the next date. There is none for a negative or infinite serial, and none past the
end of the calendar. -/
def Moment.ofSerial? (serial : Float) : Option Moment :=
  if serial < 0 then none
  else do
    let days ← Numeric.Binary.ofFloat? serial
    let seconds ← Numeric.Binary.ofFloat? (Numeric.fractionOf serial * 86400)
    let date ← Date.ofSerialDay? days.truncate
    if h : seconds.roundAbs < 86400 then pure ⟨date, ⟨seconds.roundAbs, h⟩⟩
    else do
      let next ← date.addDays? 1
      pure ⟨next, Clock.midnight⟩

/-- The fraction of a day that a serial leaves when whole days are taken away, counted upwards also
for negative serials. -/
def timeOfDay (serial : Float) : Float :=
  let rest := Numeric.fractionOf serial
  if rest < 0 then rest + 1 else rest

end Spreadsheet.Calendar
