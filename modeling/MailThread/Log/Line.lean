import MailThread.Error
import MailThread.Journal
import MailThread.Json.Writer
import MailThread.Log.Path
import MailThread.Settings.Application

namespace MailThread.Log

/-- On whose behalf a report is made. -/
structure Context where
  buildId : Option Json := none
  mailbox : Option Json := none
deriving Repr, Inhabited

/-- A report to be written. -/
structure Entry where
  level : Level
  message : String
  details : Option Json := none
  context : Context := {}
deriving Repr, Inhabited

namespace Entry

def ofReport (buildId : String) (r : Report) : Entry :=
  { level := r.event.level
    message := r.event.message
    details := some (.obj r.event.details)
    context :=
      if r.event.isOfBuild then
        { buildId := some (.str buildId), mailbox := r.mailbox.map fun m => .str m }
      else {} }

def ofError (e : ThreadError) : Entry :=
  { level := .error, message := "Failed to print threads", details := some (.obj e.fields) }

end Entry

def isGiven : Json → Bool
  | .null => false
  | .bool b => b
  | .num q => q ≠ 0
  | .str t => t ≠ .empty
  | .arr _ | .obj _ => true

mutual

def plainText : Json → String
  | .null => "null"
  | .bool b => if b then "true" else "false"
  | .num q => Decimal.text q
  | .str t => t.toString
  | .arr items => ",".intercalate (plainTexts items)
  | .obj _ => "[object Object]"

def plainTexts : List Json → List String
  | [] => []
  | .null :: js => "" :: plainTexts js
  | j :: js => plainText j :: plainTexts js

end

def textKey : String := "toString"

mutual

/-- Whether a value has a place within a sentence. Data is no text, so an object that has data to stand
for its text has none. -/
def isTellable : Json → Bool
  | .arr items => areTellable items
  | .obj fields => (fields.lookup textKey).isNone
  | _ => true

def areTellable : List Json → Bool
  | [] => true
  | j :: js => isTellable j && areTellable js

end

def hasPlace : List Char → Bool
  | '%' :: c :: cs => "scdjifoO%".toList.contains c || hasPlace (c :: cs)
  | _ :: cs => hasPlace cs
  | [] => false

/-- The particulars that a report adds to its message; none when the message has places for values,
which take the particulars away. -/
def detailFields (e : Entry) : List (String × Json) :=
  if hasPlace e.message.toList then []
  else
    match e.details with
    | some (.obj fields) => (Json.obj fields).entries
    | some (.arr items) => (Json.arr items).entries
    | _ => []

/-- Whether the message among the particulars, if there is one, can be told. -/
def isSound (e : Entry) : Bool :=
  match (detailFields e).lookup "message" with
  | some j => isTellable j
  | none => true

/-- The message, followed by the message among the particulars if there is one. -/
def fullMessage (e : Entry) : String :=
  match (detailFields e).lookup "message" with
  | some j => if isGiven j then e.message ++ " " ++ plainText j else e.message
  | none => e.message

/-- The fields for a part of the context; one that does not count as given is left out. -/
def contextField (key : String) (value : Option Json) : List (String × Json) :=
  match value with
  | some j => if isGiven j then [(key, j)] else []
  | none => []

/-- The key of the object that stands in for fields which the particulars do not have. -/
def standInKey : String := "__proto__"

/-- Whether a report is marked as an uncaught exception, by its particulars or, where they do not say,
by what stands in for them. -/
def isException (e : Entry) : Bool :=
  let own := detailFields e
  match own.lookup "exception" with
  | some j => j == .bool true
  | none => ((own.lookup standInKey).bind (·.field? "exception")) == some (.bool true)

def hiddenKeys : List String := ["level", "message", "timestamp", standInKey]

/-- The fields of a line: those of the context, and the particulars written over them. -/
def fields (e : Entry) : List (String × Json) :=
  let own := (detailFields e).filter fun (k, _) => k ∉ hiddenKeys
  Json.mergeFields
    (contextField "buildId" e.context.buildId ++ contextField "mailbox" e.context.mailbox) own

/-- The line of a report, made at `time`, with the level as `levelText` shows it. -/
def line (time levelText : String) (e : Entry) : String :=
  let fs := fields e
  time ++ " [" ++ levelText ++ "]: " ++ fullMessage e ++
    (if fs.isEmpty then "" else " " ++ (Json.obj fs).text) ++ "\n"

/-- Where lines are written. -/
inductive Sink where
  | console
  /-- A file, with a limit of its own or that of the program. -/
  | file (path : String) (limit : Option Level)
deriving DecidableEq, Repr

def sinks (a : Application) : List Sink :=
  .console ::
    if a.mode = .production then
      [.file (Path.join a.logDir "error.log") (some .error),
        .file (Path.join a.logDir "combined.log") none]
    else []

/-- What a sink writes for a report. No sink takes exceptions, and only the console shows colours. -/
def written (a : Application) (time : String) (s : Sink) (e : Entry) : String :=
  if isException e then ""
  else
    match s with
    | .console => if e.level.passes a.logLevel then line time e.level.colouredText e else ""
    | .file _ limit =>
      if e.level.passes (limit.getD a.logLevel) then line time e.level.text e else ""

end MailThread.Log
