import MailThread.Calendar
import MailThread.Log.Line
import MailThread.Program
import Std.Time.DateTime.Timestamp

namespace MailThread.Main

def names : List String :=
  ["NODE_ENV", "LOG_LEVEL", "LOG_DIR", "THREAD_SUPPRESS_REPEATED_SUBJECTS",
    "THREAD_MERGE_SENT_FOLDER", "THREAD_VERIFY_INVARIANTS", "THREAD_SUBJECT_MAX_LENGTH",
    "THREAD_RELATIVE_DATE_WINDOW_DAYS"]

def failure : IO.Error → ReadFailure
  | .noFileOrDirectory .. => .missing
  | e => .unreadable (toString e)

def readSource (path : String) : IO (Except ReadFailure String) := do
  try
    return .ok (← IO.FS.readFile path)
  catch e =>
    return .error (failure e)

/-- The environment, with an environment file in the current folder if there is one. -/
def environment : IO Environment := do
  let env : Environment ← names.filterMapM fun name => do
    return (← IO.getEnv name).map fun value => (name, value)
  return env.withFile (← readSource ".env").toOption

def clock : IO Rat := do
  return ((← Std.Time.Timestamp.now).toMillisecondsSinceUnixEpoch.toInt : Int)

def freshId : IO String := do
  let group (digits low high : Nat) : IO String := do
    return String.ofList (Json.hexText digits (← IO.rand low high))
  return "-".intercalate [← group 8 0 0xFFFFFFFF, ← group 4 0 0xFFFF, ← group 4 0x4000 0x4FFF,
    ← group 4 0x8000 0xBFFF, ← group 12 0 0xFFFFFFFFFFFF]

def log (a : Application) (e : Log.Entry) : IO Unit := do
  let time := (Moment.ofMillis (← clock).floor).text
  for s in Log.sinks a do
    let text := Log.written a time s e
    match s with
    | .console => IO.print text
    | .file path _ =>
      IO.FS.createDirAll a.logDir
      IO.FS.withFile path .append fun h => h.putStr text

/-- Prints the listing of the dump that the arguments name. -/
def run (a : Application) (env : Environment) (args : List String) : IO UInt32 := do
  let options := Program.Options.ofArguments args
  let source ← readSource (options.file.getD "")
  match Program.run options env (← clock) fun _ => source with
  | .ok output =>
    let buildId ← freshId
    let (building, after) := output.reports.partition (·.event.isOfBuild)
    for r in building do log a (.ofReport buildId r)
    IO.print output.text
    for r in after do log a (.ofReport buildId r)
    return 0
  | .error failure =>
    let buildId ← freshId
    for r in failure.reports do log a (.ofReport buildId r)
    log a (.ofError failure.error)
    return 1

end MailThread.Main

open MailThread in
/-- Runs the program if the environment has settings that it knows. -/
def main (args : List String) : IO UInt32 := do
  let env ← Main.environment
  match Application.ofEnvironment env with
  | .ok a => Main.run a env args
  | .error bad =>
    for b in bad do IO.eprintln (b.issue.field ++ ": " ++ b.issue.message)
    return 1
