import MailThread.Number.Decimal
import MailThread.Text.Blank

namespace MailThread

structure Settings where
  suppressRepeated : Bool := true
  mergeSent : Bool := true
  verify : Bool := false
  /-- The number of characters a subject is cut to. -/
  subjectWidth : Rat := 150
  /-- For how many days a date is told relative to the present. -/
  windowDays : Rat := 7
deriving DecidableEq, Repr, Inhabited

/-- Values to put in the place of settings. -/
structure SettingsChange where
  suppressRepeated : Option Bool := none
  mergeSent : Option Bool := none
  verify : Option Bool := none
  subjectWidth : Option Rat := none
  windowDays : Option Rat := none
deriving DecidableEq, Repr, Inhabited

/-- Named texts; of entries with one name the first counts. -/
abbrev Environment := List (String × String)

namespace Settings

def change (s : Settings) (c : SettingsChange) : Settings :=
  { suppressRepeated := c.suppressRepeated.getD s.suppressRepeated
    mergeSent := c.mergeSent.getD s.mergeSent
    verify := c.verify.getD s.verify
    subjectWidth := c.subjectWidth.getD s.subjectWidth
    windowDays := c.windowDays.getD s.windowDays }

def leadingNumber? (s : String) : Option Rat :=
  let cs := s.toList.dropWhile fun c => Text.isBlank c.toNat
  let magnitude? (cs : List Char) : Option Rat :=
    match cs.takeWhile Decimal.isDigit with
    | [] => none
    | digits => some (Decimal.read (Decimal.ofDigits digits) 0)
  match cs with
  | '-' :: rest => (magnitude? rest).map (-·)
  | '+' :: rest => magnitude? rest
  | cs => magnitude? cs

def positive? (s : String) : Option Rat :=
  (leadingNumber? s).filter fun q => 0 < q && Binary64.isFinite q

def switch? (env : Environment) (name : String) : Option Bool :=
  (env.lookup name).map (· == "true")

/-- The change that an environment asks for. A number that is not positive is passed over. -/
def changeOf (env : Environment) : SettingsChange :=
  { suppressRepeated := switch? env "THREAD_SUPPRESS_REPEATED_SUBJECTS"
    mergeSent := switch? env "THREAD_MERGE_SENT_FOLDER"
    verify := switch? env "THREAD_VERIFY_INVARIANTS"
    subjectWidth := (env.lookup "THREAD_SUBJECT_MAX_LENGTH").bind positive?
    windowDays := (env.lookup "THREAD_RELATIVE_DATE_WINDOW_DAYS").bind positive? }

def ofEnvironment (env : Environment) : Settings :=
  ({} : Settings).change (changeOf env)

end Settings

end MailThread
