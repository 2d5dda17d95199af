import MailThread.Text.Basic
import MailThread.Text.CaseTable

namespace MailThread.Text

namespace CaseRun

def contains (r : CaseRun) (n : Nat) : Bool :=
  r.first ≤ n && n ≤ r.last && (n - r.first) % r.step == 0

/-- Moves a code point by the distance of the run of `runs` that holds it. -/
def apply (runs : Array CaseRun) (n : Nat) : Nat :=
  match runs.find? (·.contains n) with
  | some r => ((n : Int) + r.shift).toNat
  | none => n

end CaseRun

def inRanges (ranges : Array (Nat × Nat)) (n : Nat) : Bool :=
  ranges.any fun (first, last) => first ≤ n && n ≤ last

def isCased (n : Nat) : Bool := inRanges CaseTable.cased n

def isIgnorable (n : Nat) : Bool := inRanges CaseTable.ignorable n

/-- The lower-case form of a code point that has one of a single code point. -/
def lowerPoint (n : Nat) : Nat :=
  if n < 0x80 then (if 0x41 ≤ n ∧ n ≤ 0x5A then n + 0x20 else n)
  else CaseRun.apply CaseTable.lower n

def meetsCased (ns : List Nat) : Bool :=
  match ns.dropWhile isIgnorable with
  | [] => false
  | n :: _ => isCased n

/-- The lower-case form of `n` between `before`, read backwards, and `after`: a capital sigma at the
end of a word becomes `ς`, and a dotted capital I keeps its dot as a mark of its own. -/
def lowerAt (before : List Nat) (n : Nat) (after : List Nat) : List Nat :=
  if n = 0x3A3 then
    if meetsCased before && !meetsCased after then [0x3C2] else [0x3C3]
  else if n = 0x130 then [0x69, 0x307]
  else [lowerPoint n]

def lowerFrom (before : List Nat) : List Nat → List Nat
  | [] => []
  | n :: after => lowerAt before n after ++ lowerFrom (n :: before) after

/-- The lower-case form of a text. -/
def lower (t : Text) : Text := ofCodePoints (lowerFrom [] t.codePoints)

/-- What a pattern compares units by: the upper-case form where it is one unit, and the unit itself
otherwise. A unit above ASCII is never folded into ASCII. -/
def fold (u : UInt16) : UInt16 :=
  if u.toNat < 0x80 then (if 0x61 ≤ u.toNat ∧ u.toNat ≤ 0x7A then UInt16.ofNat (u.toNat - 0x20) else u)
  else UInt16.ofNat (CaseRun.apply CaseTable.upper u.toNat)

end MailThread.Text
