/-
Days and moments. A `Day` is a day of the calendar in the years 1 to 9999; a `Moment` is a time on a day, by a clock
whose distance from universal time may be known. `Day.ofParts` and `Moment.ofParts` refuse what is no day and no moment
and say what is wrong first: the distance, the day from the year down, then the time from the hour down.
-/
namespace Chip8

structure Day where
  year : Nat
  month : Nat
  day : Nat
  deriving DecidableEq, Repr

/-- a time on a day -/
structure Moment where
  date : Day
  hour : Nat
  minute : Nat
  second : Nat
  /-- millionths of a second -/
  micros : Nat
  /-- how many minutes the clock is ahead of universal time -/
  offset : Option Int
  deriving DecidableEq, Repr

namespace Calendar

inductive Error where
  | year (found : Nat)
  | month
  | day
  | hour
  | minute
  | second
  /-- a clock that is a day or more away from universal time, by so many minutes -/
  | offset (found : Int)
  deriving DecidableEq, Repr

def dayMinutes : Int := 1440

/-- the text of a number of minutes other than zero: whole days, and the seconds beyond -/
def durationText (minutes : Int) : String :=
  let days := minutes.fdiv dayMinutes
  let seconds := minutes.fmod dayMinutes * 60
  let part (name : String) (n : Int) := if n = 0 then [] else [name ++ "=" ++ toString n]
  "datetime.timedelta(" ++ ", ".intercalate (part "days" days ++ part "seconds" seconds) ++ ")"

def Error.message : Error → String
  | .year found => "year " ++ toString found ++ " is out of range"
  | .month => "month must be in 1..12"
  | .day => "day is out of range for month"
  | .hour => "hour must be in 0..23"
  | .minute => "minute must be in 0..59"
  | .second => "second must be in 0..59"
  | .offset found =>
    "offset must be a timedelta strictly between -timedelta(hours=24) and timedelta(hours=24), not " ++
      durationText found ++ "."

def isLeap (year : Nat) : Bool := year % 4 = 0 && (year % 100 ≠ 0 || year % 400 = 0)

def monthLength (year month : Nat) : Nat :=
  if month = 2 then (if isLeap year then 29 else 28)
  else if month = 4 ∨ month = 6 ∨ month = 9 ∨ month = 11 then 30
  else 31

/-- a number with zeros in front, up to a width -/
def padded (width n : Nat) : String :=
  let digits := toString n
  .ofList (List.replicate (width - digits.length) '0') ++ digits

end Calendar

namespace Day

open Calendar

def ofParts (year month day : Nat) : Except Error Day :=
  if year = 0 then .error (.year year)
  else if month = 0 ∨ 12 < month then .error .month
  else if day = 0 ∨ monthLength year month < day then .error .day
  else .ok ⟨year, month, day⟩

/-- how many days there are up to a day -/
def number (d : Day) : Nat :=
  let years := d.year - 1
  let months := (List.range d.month).drop 1
  months.foldl (fun n m => n + monthLength d.year m) (years * 365 + years / 4 - years / 100 + years / 400 + d.day)

def text (d : Day) : String := padded 4 d.year ++ "-" ++ padded 2 d.month ++ "-" ++ padded 2 d.day

def parts (d : Day) : List Nat := [d.year, d.month, d.day]

/-- the text of a day inside a list or mapping -/
def inner (d : Day) : String := "datetime.date(" ++ ", ".intercalate (d.parts.map toString) ++ ")"

end Day

namespace Moment

open Calendar

def ofParts (year month day hour minute second micros : Nat) (offset : Option Int) : Except Error Moment :=
  match offset.filter fun o => dayMinutes ≤ o.natAbs with
  | some o => .error (.offset o)
  | none => do
    let date ← Day.ofParts year month day
    if 23 < hour then throw .hour
    if 59 < minute then throw .minute
    if 59 < second then throw .second
    return ⟨date, hour, minute, second, micros, offset⟩

/-- the minutes up to a moment, in universal time if the clock's distance from it is known -/
def minutes (m : Moment) : Int := m.date.number * dayMinutes + m.hour * 60 + m.minute - m.offset.getD 0

/-- two moments are the same. A moment in universal time is none of a clock whose distance from it is not known -/
def same (m n : Moment) : Bool :=
  m.offset.isSome = n.offset.isSome && m.minutes = n.minutes && m.second = n.second && m.micros = n.micros

/-- the text of a clock's distance from universal time -/
def offsetText (o : Int) : String :=
  (if o < 0 then "-" else "+") ++ padded 2 (o.natAbs / 60) ++ ":" ++ padded 2 (o.natAbs % 60)

def text (m : Moment) : String :=
  m.date.text ++ " " ++ padded 2 m.hour ++ ":" ++ padded 2 m.minute ++ ":" ++ padded 2 m.second ++
    (if m.micros = 0 then "" else "." ++ padded 6 m.micros) ++ (m.offset.map offsetText).getD ""

/-- the numbers that the time is made of; zeros at the end are left out, but not hour and minute -/
def timeParts (m : Moment) : List Nat :=
  [m.hour, m.minute] ++
    (if m.micros ≠ 0 then [m.second, m.micros] else if m.second ≠ 0 then [m.second] else [])

/-- the text of a clock inside a list or mapping -/
def clockText (o : Int) : String :=
  "tzinfo=datetime.timezone" ++ if o = 0 then ".utc" else "(" ++ durationText o ++ ")"

/-- the text of a moment inside a list or mapping -/
def inner (m : Moment) : String :=
  let numbers := (m.date.parts ++ m.timeParts).map toString
  "datetime.datetime(" ++ ", ".intercalate (numbers ++ (m.offset.map clockText).toList) ++ ")"

end Moment

end Chip8
