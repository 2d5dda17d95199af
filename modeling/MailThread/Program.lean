import MailThread.Build
import MailThread.Folder
import MailThread.Intake
import MailThread.Json.Reader
import MailThread.Listing.Basic

namespace MailThread.Program

/-- What the user asks for. -/
structure Options where
  /-- The path of the dump. -/
  file : Option String := none
  /-- One line for each conversation instead of each message. -/
  conversations : Bool := false
  mailbox : Option String := none
  sort : Option Text := none
  subsort : Option Text := none
  filter : Option Text := none
deriving DecidableEq, Repr, Inhabited

namespace Options

/-- An argument that is no option is the file, unless one is there already. -/
def withFile (o : Options) (argument : String) : Options :=
  if (o.file.getD "") = "" then { o with file := some argument } else o

def withValue? (o : Options) (name value : String) : Option Options :=
  match name with
  | "--mailbox" => some { o with mailbox := some value }
  | "--sort" => some { o with sort := some value }
  | "--subsort" => some { o with subsort := some value }
  | "--filter" => some { o with filter := some value }
  | _ => none

/-- Reads arguments from left to right. An option takes the argument that follows it as its value,
if that is not empty; without a value it is an argument like any other. -/
def readArguments (o : Options) : List String → Options
  | [] => o
  | [a] => if a = "--conversations" then { o with conversations := true } else o.withFile a
  | a :: b :: rest =>
    if a = "--conversations" then readArguments { o with conversations := true } (b :: rest)
    else
      match if b = "" then none else o.withValue? a b with
      | some o => readArguments o rest
      | none => readArguments (o.withFile a) (b :: rest)

def ofArguments (args : List String) : Options := readArguments {} args

end Options

/-- Why nothing is printed. -/
inductive Failure where
  | known (e : ThreadError)
  /-- The source is not written in the data notation. -/
  | malformed
  | fault (f : Fault)
  /-- The listing does not fit into one text; by then the forest was built and reported. -/
  | tooLong (reports : List Report)
deriving Repr, Inhabited

namespace Failure

def error : Failure → ThreadError
  | known e => e
  | malformed => .ofFailure "The source is not well-formed data"
  | fault f => .ofFailure f.message
  | tooLong _ => .ofFailure "Invalid string length"

def reports : Failure → List Report
  | tooLong reports => reports
  | _ => []

end Failure

/-- What a run prints and reports. -/
structure Output where
  text : String
  reports : List Report

def path (o : Options) : Except Failure String :=
  match o.file with
  | some p => if p = "" then .error (.known (.fieldMissing "file")) else .ok p
  | none => .error (.known (.fieldMissing "file"))

def sortOption (field : String) : Option Text → Except Failure (Option RowOrder)
  | none => .ok none
  | some t => ((RowOrder.parse t field).map some).mapError .known

def listing (o : Options) (s : Settings) (now : Rat) : Except Failure ListingStyle := do
  let sort ← sortOption "sort" o.sort
  let subsort ← sortOption "subsort" o.subsort
  return {
    now, sort, subsort
    subjectWidth := s.subjectWidth
    windowDays := s.windowDays
    filter := o.filter.getD .empty }

/-- The envelopes in the source at `path`. -/
def load (read : String → Except ReadFailure String) (path : String) :
    Except Failure Intake.Bundle := do
  match read path with
  | .error .missing => throw (.known (.sourceMissing path))
  | .error (.unreadable reason) => throw (.known (.sourceUnreadable path (some reason)))
  | .ok text =>
    match Json.read? text with
    | none => throw .malformed
    | some j => (Intake.readBundle (some j)).mapError .known

def buildOptions (o : Options) (s : Settings) : BuildOptions :=
  { suppressRepeated := s.suppressRepeated
    mergeSent := s.mergeSent
    verify := s.verify
    mailbox := o.mailbox }

def build (o : BuildOptions) (d : Intake.Bundle) : Except Failure Build :=
  let sent := match d.sent with
    | some es => SentFolder.folder es
    | none => .absent
  (Build.run o (.ofEnvelopes d.inbox) sent).mapError .fault

/-- The page of lines that have the given numbers of units, if it is not too long for one text. Only
then are the lines drawn. -/
def page? (widths : List Nat) (draw : Unit → Option (List Text)) : Option Text :=
  if Listing.pageWidth widths ≤ Text.widest then (draw ()).map Listing.page else none

/-- The listing as one text, if there is such a text. -/
def page (conversations : Bool) (f : Forest) (o : ListingStyle) : Except Fault (Option Text) := do
  if conversations then
    let rows ← f.conversationLines o
    return page? (rows.map ConversationLine.width) fun _ => some (rows.map ConversationLine.text)
  else
    let rows ← f.messageLines o
    return page? (rows.map MessageLine.width) fun _ => MessageLine.texts? rows

/-- Prints the listing of a build. -/
def print (o : Options) (listing : ListingStyle) (built : Build) : Except Failure Output := do
  let reports : List Report := built.events.map (⟨·, o.mailbox⟩)
  match ← (page o.conversations built.forest listing).mapError .fault with
  | some text => return { text := text.toString, reports := reports ++ [⟨.printed built.counts, none⟩] }
  | none => throw (.tooLong reports)

/-- Runs the program at the time `clock`, in milliseconds since the start of 1970. The options are
checked before the source is read, and nothing is printed unless all goes well. -/
def run (o : Options) (env : Environment) (clock : Rat)
    (read : String → Except ReadFailure String) : Except Failure Output := do
  let path ← path o
  let settings := Settings.ofEnvironment env
  let listing ← listing o settings (ListingStyle.nowAt clock)
  let dump ← load read path
  print o listing (← build (buildOptions o settings) dump)

end MailThread.Program
