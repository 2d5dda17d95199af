import MailThread.Settings.Basic

namespace MailThread.EnvFile

variable {r : Type}

/-- What follows a part of a line: it takes the rest of the text. -/
abbrev Next (r : Type) := List Char → Option r

def isBlank (c : Char) : Bool := Text.isBlank c.toNat

def isLineEnd (c : Char) : Bool := Text.isLineEnd c.toNat

def most (p : Char → Bool) (next : Next r) : Next r
  | [] => next []
  | c :: cs => if p c then (most p next cs).or (next (c :: cs)) else next (c :: cs)

def fewest (p : Char → Bool) (next : Next r) : Next r
  | [] => next []
  | c :: cs => (next (c :: cs)).or (if p c then fewest p next cs else none)

def one (p : Char → Bool) (next : Next r) : Next r
  | [] => none
  | c :: cs => if p c then next cs else none

def several (p : Char → Bool) (next : Next r) : Next r := one p (most p next)

def word (w : List Char) (next : Next r) : Next r := fun cs =>
  if w.isPrefixOf cs then next (cs.drop w.length) else none

/-- The text between two quotes, in which a backslash may stand before a quote. -/
def quoted (q : Char) (next : Next r) : Next r
  | [] => next []
  | [c] => (if c ≠ q then next [] else none).or (next [c])
  | c :: d :: cs =>
    ((if c = '\\' ∧ d = q then quoted q next cs else none).or
      (if c ≠ q then quoted q next (d :: cs) else none)).or (next (c :: d :: cs))

def isNameChar (c : Char) : Bool :=
  c.isAlphanum || c == '_' || c == '.' || c == '-'

def atLineEnd : List Char → Bool
  | [] => true
  | c :: _ => isLineEnd c

def tail (next : Next r) : Next r :=
  let finish : Next r := fun cs => if atLineEnd cs then next cs else none
  most isBlank fun cs =>
    match cs with
    | '#' :: rest => (most (fun c => !isLineEnd c) finish rest).or (finish cs)
    | _ => finish cs

def value (next : Next r) : Next r := fun cs =>
  let inQuotes (q : Char) : Option r :=
    most isBlank (one (· == q) (quoted q (one (· == q) next))) cs
  ((inQuotes '\'').or ((inQuotes '"').or ((inQuotes '`').or
    (several (fun c => c != '#' && c != '\r' && c != '\n') next cs)))).or (next cs)

def before (whole rest : List Char) : List Char :=
  whole.take (whole.length - rest.length)

/-- A line's name and its value as written, and what follows the line. -/
structure Line where
  name : List Char
  value : List Char
  rest : List Char

def line? : List Char → Option Line :=
  most isBlank fun cs => (word "export".toList (several isBlank named) cs).or (named cs)
where
  named : Next Line := fun start =>
    several isNameChar (fun afterName =>
      let valued (cs : List Char) : Option Line :=
        value (fun afterValue =>
          tail (fun rest =>
            some { name := before start afterName, value := before cs afterValue, rest })
            afterValue) cs
      (most isBlank (one (· == '=') (fewest isBlank valued)) afterName).or
        (one (· == ':') (one isBlank (fewest isBlank valued)) afterName)) start

def lastClose (q : Char) : List Char → Option (List Char × List Char)
  | [] => none
  | c :: cs =>
    match lastClose q cs with
    | some (inner, rest) => some (c :: inner, rest)
    | none => if c = q ∧ atLineEnd cs then some ([], cs) else none

def unquote : Nat → Bool → List Char → List Char
  | 0, _, cs => cs
  | _ + 1, _, [] => []
  | fuel + 1, lineStart, c :: cs =>
    let plain := c :: unquote fuel (isLineEnd c) cs
    if lineStart && (c == '\'' || c == '"' || c == '`') then
      match lastClose c cs with
      | some (inner, rest) => inner ++ unquote fuel false rest
      | none => plain
    else plain

def expand (letter mark : Char) : List Char → List Char
  | [] => []
  | [c] => [c]
  | c :: d :: cs =>
    if c = '\\' ∧ d = letter then mark :: expand letter mark cs
    else c :: expand letter mark (d :: cs)

/-- What a value as written stands for. -/
def meaning (written : List Char) : List Char :=
  let cs := Text.strip isBlank written
  let plain := unquote (cs.length + 1) true cs
  match cs with
  | '"' :: _ => expand 'r' '\r' (expand 'n' '\n' plain)
  | _ => plain

/-- The lines of a text, found one after the other at the starts of lines. -/
def lines : Nat → Bool → List Char → List Line
  | 0, _, _ => []
  | _ + 1, _, [] => []
  | fuel + 1, lineStart, c :: cs =>
    match if lineStart then line? (c :: cs) else none with
    | some l => l :: lines fuel false l.rest
    | none => lines fuel (isLineEnd c) cs

def unifyLineEnds : List Char → List Char
  | [] => []
  | '\r' :: '\n' :: cs => '\n' :: unifyLineEnds cs
  | '\r' :: cs => '\n' :: unifyLineEnds cs
  | c :: cs => c :: unifyLineEnds cs

/-- The entries of an environment file: lines of the form `name=value` or `name: value`, perhaps after
the word `export`, with comments after `#`. Of lines with one name the last counts. A line is recognised
by trying the choices of its grammar in their order; what follows is passed on as a continuation, and
the first choice with which the whole line comes out is taken. -/
def parse (text : String) : Environment :=
  let cs := unifyLineEnds text.toList
  (lines (cs.length + 1) true cs).reverse.map fun l =>
    (String.ofList l.name, String.ofList (meaning l.value))

end MailThread.EnvFile

/-- An environment with the entries of an environment file, over which it has the last word. -/
def MailThread.Environment.withFile (env : Environment) (file : Option String) : Environment :=
  env ++ (file.map EnvFile.parse).getD []
