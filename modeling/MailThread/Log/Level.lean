namespace MailThread

inductive Level where
  | error
  | warn
  | info
  | http
  | verbose
  | debug
  | silly
deriving DecidableEq, Repr, Inhabited

namespace Level

def all : List Level := [error, warn, info, http, verbose, debug, silly]

def text : Level → String
  | error => "error"
  | warn => "warn"
  | info => "info"
  | http => "http"
  | verbose => "verbose"
  | debug => "debug"
  | silly => "silly"

def ofText? (s : String) : Option Level := all.find? (·.text == s)

def rank : Level → Nat
  | error => 0
  | warn => 1
  | info => 2
  | http => 3
  | verbose => 4
  | debug => 5
  | silly => 6

/-- The number of the terminal colour in which the name of a level is shown. -/
def colour : Level → Nat
  | error => 31
  | warn => 33
  | info | http => 32
  | verbose => 36
  | debug => 34
  | silly => 35

def passes (l limit : Level) : Bool := l.rank ≤ limit.rank

def colouredText (l : Level) : String :=
  "\x1b[" ++ toString l.colour ++ "m" ++ l.text ++ "\x1b[39m"

end Level

end MailThread
