import MailThread.Text.Blank
import MailThread.Text.Case

namespace MailThread.Text.Pattern

def anyMark : UInt16 := 0x2E
def repeatMark : UInt16 := 0x2A
def startMark : UInt16 := 0x5E
def endMark : UInt16 := 0x24
def escapeMark : UInt16 := 0x5C

/-- The characters that need an escape to stand for themselves: `. * + ? ^ $ { } ( ) | [ ] \`. -/
def special : List UInt16 :=
  [anyMark, repeatMark, 0x2B, 0x3F, startMark, endMark, 0x7B, 0x7D, 0x28, 0x29, 0x7C, 0x5B, 0x5D,
    escapeMark]

def escape (us : List UInt16) : List UInt16 :=
  us.flatMap fun u => if u ∈ special then [escapeMark, u] else [u]

/-- What describes one unit. -/
inductive Atom where
  | unit (u : UInt16)
  /-- Any unit but a line end. -/
  | any
deriving DecidableEq, Repr

inductive Token where
  | atom (a : Atom)
  | again
  | start
  | finish
deriving DecidableEq, Repr

/-- A pattern is a list of items. -/
inductive Item where
  | start
  | finish
  | once (a : Atom)
  | many (a : Atom)
deriving DecidableEq, Repr

/-- The token of a character without an escape. Groups, classes, choices and counts are not read. -/
def Token.of? (u : UInt16) : Option Token :=
  if u = anyMark then some (.atom .any)
  else if u = repeatMark then some .again
  else if u = startMark then some .start
  else if u = endMark then some .finish
  else if u ∈ special then none
  else some (.atom (.unit u))

/-- The tokens of a pattern, of which the part before may have ended in an escape. An escape stands
before a special character only. -/
def tokens? (escaped : Bool) : List UInt16 → Option (List Token)
  | [] => if escaped then none else some []
  | u :: us =>
    if escaped then
      if u ∈ special then (tokens? false us).map (.atom (.unit u) :: ·) else none
    else if u = escapeMark then tokens? true us
    else do return (← Token.of? u) :: (← tokens? false us)

def items? : List Token → Option (List Item)
  | [] => some []
  | .start :: ts => (items? ts).map (.start :: ·)
  | .finish :: ts => (items? ts).map (.finish :: ·)
  | .again :: _ => none
  | .atom a :: .again :: ts => (items? ts).map (.many a :: ·)
  | .atom a :: ts => (items? ts).map (.once a :: ·)

/-- Reads a pattern, a text in which some characters do not stand for themselves unless there is an
escape before them. The engine's limit on the size of a pattern is left out. -/
def parse? (us : List UInt16) : Option (List Item) := do items? (← tokens? false us)

def Atom.accepts : Atom → UInt16 → Bool
  | unit u, v => fold u = fold v
  | any, v => !isLineEnd v.toNat

/-- Whether `holds` is met behind a stretch of units that `a` accepts; a longer one is tried first. -/
def stretch (a : Atom) (holds : Nat → List UInt16 → Bool) : Nat → List UInt16 → Bool
  | n, [] => holds n []
  | n, u :: us => (a.accepts u && stretch a holds (n + 1) us) || holds n (u :: us)

/-- Whether items describe a part of a text that begins at position `n`, where `us` is left of it. -/
def matchAt : List Item → Nat → List UInt16 → Bool
  | [], _, _ => true
  | .start :: is, n, us => n == 0 && matchAt is n us
  | .finish :: is, n, us => us.isEmpty && matchAt is n us
  | .once _ :: _, _, [] => false
  | .once a :: is, n, u :: us => a.accepts u && matchAt is (n + 1) us
  | .many a :: is, n, us => stretch a (matchAt is) n us

def foundFrom (is : List Item) : Nat → List UInt16 → Bool
  | n, [] => matchAt is n []
  | n, u :: us => matchAt is n (u :: us) || foundFrom is (n + 1) us

/-- Whether items describe a part of the text. -/
def found (is : List Item) (us : List UInt16) : Bool := foundFrom is 0 us

end MailThread.Text.Pattern
