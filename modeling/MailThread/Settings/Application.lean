import MailThread.Issue
import MailThread.Log.Level
import MailThread.Settings.EnvFile

namespace MailThread

/-- What a run of the program is for. -/
inductive Mode where
  | development
  | production
  | test
deriving DecidableEq, Repr, Inhabited

namespace Mode

def all : List Mode := [development, production, test]

def text : Mode → String
  | development => "development"
  | production => "production"
  | test => "test"

def ofText? (s : String) : Option Mode := all.find? (·.text == s)

end Mode

structure Application where
  mode : Mode := .development
  logLevel : Level := .info
  logDir : String := "logs"
deriving DecidableEq, Repr, Inhabited

/-- An entry of the environment that is none of the words allowed for it. -/
structure BadEntry where
  name : String
  allowed : List String
  received : String
deriving DecidableEq, Repr

def BadEntry.issue (b : BadEntry) : Issue :=
  { field := b.name
    message := "Invalid enum value. Expected " ++
      " | ".intercalate (b.allowed.map fun w => "'" ++ w ++ "'") ++
      ", received '" ++ b.received ++ "'" }

namespace Application

def logLevels : List Level := [.error, .warn, .info, .debug]

def choose {α : Type} (env : Environment) (name : String) (choices : List α) (word : α → String)
    (default : α) : Except (List BadEntry) α :=
  match env.lookup name with
  | none => .ok default
  | some s =>
    match choices.find? (word · == s) with
    | some c => .ok c
    | none => .error [⟨name, choices.map word, s⟩]

/-- Reads the settings of an environment, or tells every entry that is wrong. -/
def ofEnvironment (env : Environment) : Except (List BadEntry) Application :=
  let mode := choose env "NODE_ENV" Mode.all Mode.text .development
  let level := choose env "LOG_LEVEL" logLevels Level.text .info
  let logDir := (env.lookup "LOG_DIR").getD "logs"
  match mode, level with
  | .ok mode, .ok logLevel => .ok { mode, logLevel, logDir }
  | .error bad, .ok _ => .error bad
  | .ok _, .error bad => .error bad
  | .error bad, .error more => .error (bad ++ more)

def load (env : Environment) (file : Option String) : Except (List BadEntry) Application :=
  ofEnvironment (env.withFile file)

end Application

end MailThread
