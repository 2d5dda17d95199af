import MailThread.Json.Value
import MailThread.Number.Decimal

namespace MailThread.Json

def isGap (c : Char) : Bool := c == ' ' || c == '\n' || c == '\r' || c == '\t'

def skipGap (cs : List Char) : List Char := cs.dropWhile isGap

def hexDigit? (c : Char) : Option Nat :=
  if '0' ≤ c ∧ c ≤ '9' then some (c.toNat - '0'.toNat)
  else if 'a' ≤ c ∧ c ≤ 'f' then some (c.toNat - 'a'.toNat + 10)
  else if 'A' ≤ c ∧ c ≤ 'F' then some (c.toNat - 'A'.toNat + 10)
  else none

/-- The unit of four hexadecimal digits. -/
def unit? (a b c d : Char) : Option UInt16 := do
  let a ← hexDigit? a
  let b ← hexDigit? b
  let c ← hexDigit? c
  let d ← hexDigit? d
  some (UInt16.ofNat (((a * 16 + b) * 16 + c) * 16 + d))

def escaped? (c : Char) : Option Char :=
  match c with
  | '"' => some '"'
  | '\\' => some '\\'
  | '/' => some '/'
  | 'b' => some '\x08'
  | 'f' => some '\x0c'
  | 'n' => some '\n'
  | 'r' => some '\r'
  | 't' => some '\t'
  | _ => none

/-- The rest of a string after its opening quote; `done` holds the units that were read, last one
first. -/
def readString (done : List UInt16) : List Char → Option (Text × List Char)
  | [] => none
  | c :: cs =>
    if c = '"' then some (⟨done.reverse⟩, cs)
    else if c = '\\' then
      match cs with
      | 'u' :: c₀ :: c₁ :: c₂ :: c₃ :: rest =>
        match unit? c₀ c₁ c₂ c₃ with
        | some u => readString (u :: done) rest
        | none => none
      | e :: rest =>
        match escaped? e with
        | some d => readString ((Text.unitsOf d.toNat).reverse ++ done) rest
        | none => none
      | [] => none
    else if c.toNat < 0x20 then none
    else readString ((Text.unitsOf c.toNat).reverse ++ done) cs

def readDigits (cs : List Char) : Option (List Char × List Char) :=
  match cs.takeWhile Decimal.isDigit with
  | [] => none
  | digits => some (digits, cs.dropWhile Decimal.isDigit)

def readWhole (cs : List Char) : Option (List Char × List Char) :=
  match cs with
  | '0' :: rest => some (['0'], rest)
  | _ => readDigits cs

def readFraction (cs : List Char) : Option (List Char × List Char) :=
  match cs with
  | '.' :: rest => readDigits rest
  | _ => some ([], cs)

def readExponent (cs : List Char) : Option (Int × List Char) :=
  let signed (rest : List Char) : Option (Int × List Char) :=
    match rest with
    | '+' :: more => (readDigits more).map fun (d, r) => ((Decimal.ofDigits d : Int), r)
    | '-' :: more => (readDigits more).map fun (d, r) => (-(Decimal.ofDigits d : Int), r)
    | more => (readDigits more).map fun (d, r) => ((Decimal.ofDigits d : Int), r)
  match cs with
  | 'e' :: rest => signed rest
  | 'E' :: rest => signed rest
  | _ => some (0, cs)

def readUnsigned (cs : List Char) : Option (Rat × List Char) := do
  let (whole, cs) ← readWhole cs
  let (fraction, cs) ← readFraction cs
  let (exponent, cs) ← readExponent cs
  some (Decimal.read (Decimal.ofDigits (whole ++ fraction)) (exponent - fraction.length), cs)

def readNumber (cs : List Char) : Option (Rat × List Char) :=
  match cs with
  | '-' :: rest => (readUnsigned rest).map fun (q, r) => (-q, r)
  | _ => readUnsigned cs

def readWord (word : String) (value : Json) (cs : List Char) : Option (Json × List Char) :=
  let w := word.toList
  if w.isPrefixOf cs then some (value, cs.drop w.length) else none

mutual

def readValue : Nat → List Char → Option (Json × List Char)
  | 0, _ => none
  | fuel + 1, cs =>
    match cs with
    | '{' :: rest =>
      match skipGap rest with
      | '}' :: rest => some (obj [], rest)
      | rest => readFields fuel [] rest
    | '[' :: rest =>
      match skipGap rest with
      | ']' :: rest => some (arr [], rest)
      | rest => readItems fuel [] rest
    | '"' :: rest => (readString [] rest).map fun (t, r) => (str t, r)
    | 't' :: _ => readWord "true" (bool true) cs
    | 'f' :: _ => readWord "false" (bool false) cs
    | 'n' :: _ => readWord "null" null cs
    | _ => (readNumber cs).map fun (q, r) => (num q, r)

/-- The items of a list from the first one on; `done` holds those read, last one first. -/
def readItems : Nat → List Json → List Char → Option (Json × List Char)
  | 0, _, _ => none
  | fuel + 1, done, cs =>
    match readValue fuel (skipGap cs) with
    | none => none
    | some (v, rest) =>
      match skipGap rest with
      | ',' :: rest => readItems fuel (v :: done) rest
      | ']' :: rest => some (arr (v :: done).reverse, rest)
      | _ => none

/-- The fields of an object from the first one on; of fields with one key the last one counts. A key is
told in characters. -/
def readFields : Nat → List (String × Json) → List Char → Option (Json × List Char)
  | 0, _, _ => none
  | fuel + 1, done, cs =>
    match skipGap cs with
    | '"' :: rest =>
      match readString [] rest with
      | none => none
      | some (key, rest) =>
        match skipGap rest with
        | ':' :: rest =>
          match readValue fuel (skipGap rest) with
          | none => none
          | some (v, rest) =>
            let done := putField done key.toString v
            match skipGap rest with
            | ',' :: rest => readFields fuel done rest
            | '}' :: rest => some (obj done, rest)
            | _ => none
        | _ => none
    | _ => none

end

/-- The value that a text holds; none where the text is not one value. -/
def read? (s : String) : Option Json :=
  let cs := skipGap s.toList
  match readValue (2 * cs.length + 2) cs with
  | some (v, rest) => if (skipGap rest).isEmpty then some v else none
  | none => none

end MailThread.Json
