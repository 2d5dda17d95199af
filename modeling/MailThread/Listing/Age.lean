import MailThread.Calendar
import MailThread.Number.Decimal

namespace MailThread.Age

def phrase (count : Int) (unit : String) : String :=
  Decimal.text count ++ " " ++ unit ++ (if count = 1 then "" else "s") ++ " ago"

def minute : Rat := 60

def hour : Rat := 3600

def day : Rat := 86400

def count (age unit : Rat) : Int := (Binary64.div age unit).floor

/-- The text of a date where the date or the time of looking at it is not known. -/
def unknown : String := "NaN days ago"

/-- The text of a date as seen from `now`. A date in the future or before the window is told in
full. -/
def label (date now windowDays : Rat) : String :=
  let age := Binary64.sub now date
  if age < 0 ∨ Binary64.mul windowDays day ≤ age then timestamp date
  else if age < hour then phrase (count age minute) "minute"
  else if age < day then phrase (count age hour) "hour"
  else phrase (count age day) "day"

end MailThread.Age
