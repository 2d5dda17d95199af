import MailThread.Number.Binary64

namespace MailThread.Decimal

def scaled (digits : Nat) (exponent : Int) : Rat :=
  if 0 ≤ exponent then ((digits * Nat.pow 10 exponent.toNat : Nat) : Rat)
  else mkRat digits (Nat.pow 10 (-exponent).toNat)

def leadingZeros (q : Rat) : Nat → Nat
  | 0 => 0
  | fuel + 1 => if 1 ≤ q then 0 else leadingZeros (q * 10) fuel + 1

/-- The exponent `k` with `10 ^ (k - 1) ≤ q < 10 ^ k`, for positive `q` of the format. -/
def magnitude (q : Rat) : Int :=
  if 1 ≤ q then ((Nat.toDigits 10 q.floor.toNat).length : Int)
  else 1 - (leadingZeros q 400 : Int)

/-- The candidate with last digit in place `exponent` that reads back as `q`, the nearer one of
two, of a tie the even one. -/
def candidate? (q : Rat) (exponent : Int) : Option Nat :=
  let t := q / scaled 1 exponent
  let below := t.floor.toNat
  let above := below + 1
  let readsBack (n : Nat) : Bool := Binary64.round (scaled n exponent) = q
  let low : Rat := t - (below : Rat)
  let high : Rat := (above : Rat) - t
  match readsBack below, readsBack above with
  | true, false => some below
  | false, true => some above
  | false, false => none
  | true, true =>
    if low < high then some below
    else if high < low then some above
    else if below % 2 = 0 then some below else some above

/-- The shortest digits of positive `q` and the place of their last one, tried from `count` digits
on. -/
def shortestFrom (q : Rat) (count : Nat) : Nat → Nat × Int
  | 0 => (q.floor.toNat, 0)
  | fuel + 1 =>
    let exponent := magnitude q - (count : Int)
    match candidate? q exponent with
    | some n => (n, exponent)
    | none => shortestFrom q (count + 1) fuel

def stripZeros (n : Nat) (exponent : Int) : Nat → Nat × Int
  | 0 => (n, exponent)
  | fuel + 1 =>
    if n ≠ 0 ∧ n % 10 = 0 then stripZeros (n / 10) (exponent + 1) fuel else (n, exponent)

def digitsOf (n : Nat) : List Char := Nat.toDigits 10 n

/-- Lays digits out, the decimal point standing `point` places after the first digit. -/
def layout (digits : List Char) (point : Int) : List Char :=
  let count : Int := digits.length
  if count ≤ point ∧ point ≤ 21 then
    digits ++ List.replicate (point - count).toNat '0'
  else if 0 < point ∧ point ≤ 21 then
    digits.take point.toNat ++ '.' :: digits.drop point.toNat
  else if -6 < point ∧ point ≤ 0 then
    '0' :: '.' :: List.replicate (-point).toNat '0' ++ digits
  else
    let power := point - 1
    let sign := if power < 0 then '-' else '+'
    let mantissa := match digits with
      | d :: d' :: ds => d :: '.' :: d' :: ds
      | ds => ds
    mantissa ++ 'e' :: sign :: digitsOf power.natAbs

def positiveText (q : Rat) : List Char :=
  if q.den = 1 ∧ q.num.natAbs < 0x20000000000000 then digitsOf q.num.natAbs
  else
    let (n, exponent) := shortestFrom q 1 17
    let (n, exponent) := stripZeros n exponent 17
    let digits := digitsOf n
    layout digits (exponent + (digits.length : Int))

/-- The text of the 64-bit number nearest to `exact`: the fewest significant digits that read back as
that number, written positionally from `1e-6` up to `1e21`. -/
def text (exact : Rat) : String :=
  let q := Binary64.round exact
  if q.num = 0 then "0"
  else if 0 < q.num then String.ofList (positiveText q)
  else String.ofList ('-' :: positiveText (-q))

def isDigit (c : Char) : Bool := '0' ≤ c && c ≤ '9'

def ofDigits (digits : List Char) : Nat :=
  digits.foldl (fun n c => n * 10 + (c.toNat - '0'.toNat)) 0

/-- The 64-bit number nearest to `digits * 10 ^ exponent`. The digits are cut to their magnitude
first, so that an enormous exponent costs nothing. -/
def read (digits : Nat) (exponent : Int) : Rat :=
  if digits = 0 then 0
  else
    let top := exponent + ((Nat.toDigits 10 digits).length : Int)
    if 400 < top then (Binary64.limit : Rat)
    else if top < -400 then 0
    else Binary64.round (scaled digits exponent)

end MailThread.Decimal
