namespace MailThread

/-- A sequence of 16-bit units. A character above `0xFFFF` is a pair of units, the first from `0xD800`
and the second from `0xDC00` on. Data may hold half of a pair alone, so a text is more than a string. -/
structure Text where
  units : List UInt16
deriving DecidableEq, Repr, Inhabited

namespace Text

protected def empty : Text := ⟨[]⟩

protected def length (t : Text) : Nat := t.units.length

/-- The number of units that a text may have at most. -/
def widest : Nat := 0x1FFFFFE8

instance : Append Text := ⟨fun s t => ⟨s.units ++ t.units⟩⟩

def isFirstHalf (u : UInt16) : Bool := 0xD800 ≤ u.toNat && u.toNat < 0xDC00

def isSecondHalf (u : UInt16) : Bool := 0xDC00 ≤ u.toNat && u.toNat < 0xE000

def isHalf (n : Nat) : Bool := 0xD800 ≤ n && n < 0xE000

def ofPair (u v : UInt16) : Nat :=
  0x10000 + (u.toNat - 0xD800) * 0x400 + (v.toNat - 0xDC00)

def unitsOf (n : Nat) : List UInt16 :=
  if n < 0x10000 then [UInt16.ofNat n]
  else
    [UInt16.ofNat (0xD800 + (n - 0x10000) / 0x400), UInt16.ofNat (0xDC00 + (n - 0x10000) % 0x400)]

/-- The code points of units: a pair makes one, and any other unit makes one by itself. -/
def pointsOf : List UInt16 → List Nat
  | [] => []
  | [u] => [u.toNat]
  | u :: v :: us =>
    if isFirstHalf u && isSecondHalf v then ofPair u v :: pointsOf us
    else u.toNat :: pointsOf (v :: us)

def codePoints (t : Text) : List Nat := pointsOf t.units

def ofCodePoints (ns : List Nat) : Text := ⟨ns.flatMap unitsOf⟩

def ofString (s : String) : Text := ofCodePoints (s.toList.map Char.toNat)

instance : Coe String Text := ⟨ofString⟩

/-- The character of a code point; the replacement character for half of a pair. -/
def charOf (n : Nat) : Char := if isHalf n then '\uFFFD' else Char.ofNat n

protected def toString (t : Text) : String := String.ofList (t.codePoints.map charOf)

def compareUnits : List UInt16 → List UInt16 → Ordering
  | [], [] => .eq
  | [], _ :: _ => .lt
  | _ :: _, [] => .gt
  | u :: us, v :: vs => (compare u.toNat v.toNat).then (compareUnits us vs)

protected def compare (s t : Text) : Ordering := compareUnits s.units t.units

end Text

end MailThread
