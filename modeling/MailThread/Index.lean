import MailThread.Number.Decimal

namespace MailThread

/-- What is used as a position. It may come from outside, so any number is one, and so is none at all;
only a slot can stand in a store. -/
inductive Index where
  /-- A whole number from zero on. -/
  | slot (n : Nat)
  /-- Any other number, or no number; it names nothing. -/
  | stray (q : Option Rat)
deriving DecidableEq, Repr, Inhabited

namespace Index

def ofRat (q : Rat) : Index :=
  if q.den = 1 ∧ 0 ≤ q.num then .slot q.num.toNat else .stray q

def missing : Index := .stray none

def toRat? : Index → Option Rat
  | slot n => some n
  | stray q => q

def text (i : Index) : String :=
  match i.toRat? with
  | some q => Decimal.text q
  | none => "undefined"

/-- Whether there is no number, or one that lies below zero or reaches `size`. -/
def outside (i : Index) (size : Nat) : Bool :=
  match i with
  | slot n => size ≤ n
  | stray none => true
  | stray (some q) => q < 0 || (size : Rat) ≤ q

def lookup {α : Type} (xs : Array α) : Index → Option α
  | slot n => xs[n]?
  | stray _ => none

end Index

/-- What stops a walk over containers. -/
inductive Fault where
  /-- An index names no container of an arena of that size. -/
  | noContainer (index : Index) (size : Nat)
  /-- The links run in a circle, and the walk along them would never end. -/
  | endless
deriving DecidableEq, Repr

def Fault.message : Fault → String
  | .noContainer i size =>
    "No container at index " ++ i.text ++ " (arena size " ++ toString size ++ ")"
  | .endless => "The links of the arena run in a circle"

end MailThread
