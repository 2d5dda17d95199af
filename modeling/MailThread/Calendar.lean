import MailThread.Number.Binary64

namespace MailThread

/-- A date and a time of day. -/
structure Moment where
  year : Int
  month : Nat
  day : Nat
  hour : Nat
  minute : Nat
  second : Nat
deriving DecidableEq, Repr

namespace Calendar

/-- Years run from March here, so that a leap day ends its year. -/
structure MarchDate where
  year : Int
  /-- The day of the year, counted from the first of March. -/
  dayOfYear : Nat

/-- The date `days` after the first of January 1970. A cycle of 400 years has 146097 days. -/
def marchDate (days : Int) : MarchDate :=
  let shifted := days + 719468
  let cycle := shifted.fdiv 146097
  let dayOfCycle := (shifted.fmod 146097).toNat
  let yearOfCycle :=
    (dayOfCycle - dayOfCycle / 1460 + dayOfCycle / 36524 - dayOfCycle / 146096) / 365
  { year := cycle * 400 + yearOfCycle
    dayOfYear := dayOfCycle - (365 * yearOfCycle + yearOfCycle / 4 - yearOfCycle / 100) }

/-- The month of a date, March being 0. Five months from March have 153 days. -/
def MarchDate.monthIndex (d : MarchDate) : Nat :=
  (5 * d.dayOfYear + 2) / 153

def MarchDate.day (d : MarchDate) : Nat :=
  d.dayOfYear - (153 * d.monthIndex + 2) / 5 + 1

def MarchDate.month (d : MarchDate) : Nat :=
  if d.monthIndex < 10 then d.monthIndex + 3 else d.monthIndex - 9

def MarchDate.civilYear (d : MarchDate) : Int :=
  if d.monthIndex < 10 then d.year else d.year + 1

end Calendar

namespace Moment

def ofSeconds (seconds : Int) : Moment :=
  let date := Calendar.marchDate (seconds.fdiv 86400)
  let time := (seconds.fmod 86400).toNat
  { year := date.civilYear
    month := date.month
    day := date.day
    hour := time / 3600
    minute := time / 60 % 60
    second := time % 60 }

def ofMillis (millis : Int) : Moment :=
  ofSeconds (millis.fdiv 1000)

def pad (n : Nat) : String :=
  if n < 10 then "0" ++ toString n else toString n

def text (m : Moment) : String :=
  toString m.year ++ "-" ++ pad m.month ++ "-" ++ pad m.day ++ " " ++
    pad m.hour ++ ":" ++ pad m.minute ++ ":" ++ pad m.second

end Moment

/-- The calendar reaches 100 million days to both sides of 1970. -/
def Calendar.reach : Rat := 8640000000000000

/-- The moment at `date` seconds since the start of 1970, down to the millisecond; none beyond the
reach of the calendar. -/
def Moment.ofDate? (date : Rat) : Option Moment :=
  let millis := Binary64.mul date 1000
  if -Calendar.reach ≤ millis ∧ millis ≤ Calendar.reach then
    some (Moment.ofMillis (Binary64.truncate millis))
  else none

def unknownTimestamp : String := "NaN-NaN-NaN NaN:NaN:NaN"

/-- The text of a date in seconds. -/
def timestamp (date : Rat) : String :=
  match Moment.ofDate? date with
  | some m => m.text
  | none => unknownTimestamp

end MailThread
