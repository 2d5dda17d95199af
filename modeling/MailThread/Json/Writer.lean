import MailThread.Json.Value
import MailThread.Number.Decimal

namespace MailThread.Json

def hexText (digits n : Nat) : List Char :=
  let d := Nat.toDigits 16 n
  List.replicate (digits - d.length) '0' ++ d

def unitText (n : Nat) : List Char := '\\' :: 'u' :: hexText 4 n

/-- A code point between quotes. Half of a pair is written by its number, and with `ascii` set all
beyond ASCII by its units. -/
def pointText (ascii : Bool) (n : Nat) : List Char :=
  if n = 0x22 then ['\\', '"']
  else if n = 0x5C then ['\\', '\\']
  else if n = 0x08 then ['\\', 'b']
  else if n = 0x0C then ['\\', 'f']
  else if n = 0x0A then ['\\', 'n']
  else if n = 0x0D then ['\\', 'r']
  else if n = 0x09 then ['\\', 't']
  else if n < 0x20 ∨ Text.isHalf n ∨ (ascii ∧ 0x7F ≤ n) then
    (Text.unitsOf n).flatMap fun u => unitText u.toNat
  else [Char.ofNat n]

def stringText (ascii : Bool) (t : Text) : String :=
  String.ofList ('"' :: t.codePoints.flatMap (pointText ascii) ++ ['"'])

/-- The number that a key spells, if it is one below `0xFFFFFFFF` in its shortest form. -/
def position? (key : String) : Option Nat :=
  let cs := key.toList
  if cs.isEmpty ∨ ¬ cs.all Decimal.isDigit ∨ 10 < cs.length then none
  else
    let n := Decimal.ofDigits cs
    if Nat.toDigits 10 n = cs ∧ n < 0xFFFFFFFF then some n else none

/-- Fields whose key is a small whole number come first, in the order of these numbers, and the others
follow in the order in which they were written. -/
def inOrder {α : Type} (fields : List (String × α)) : List (String × α) :=
  let numbered := fields.filterMap fun f => (position? f.1).map fun n => (n, f)
  (numbered.mergeSort fun a b => a.1 ≤ b.1).map (·.2) ++
    fields.filter fun f => (position? f.1).isNone

mutual

def write (ascii : Bool) : Json → String
  | null => "null"
  | bool true => "true"
  | bool false => "false"
  | num q => Decimal.text q
  | str t => stringText ascii t
  | arr items => "[" ++ ",".intercalate (writeItems ascii items) ++ "]"
  | obj fields =>
    "\x7b" ++ ",".intercalate ((inOrder (writeFields ascii fields)).map (·.2)) ++ "\x7d"

def writeItems (ascii : Bool) : List Json → List String
  | [] => []
  | j :: js => write ascii j :: writeItems ascii js

def writeFields (ascii : Bool) : List (String × Json) → List (String × String)
  | [] => []
  | (k, v) :: rest => (k, stringText ascii k ++ ":" ++ write ascii v) :: writeFields ascii rest

end

def text (j : Json) : String := write false j

def asciiText (j : Json) : String := write true j

end MailThread.Json
