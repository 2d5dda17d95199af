import MailThread.Index

namespace MailThread

/-- What a walk visited, in order, and what stopped it before its end. The effects of a walk up to that
point can be told. -/
structure Trail (α : Type) where
  visited : List α
  fault : Option Fault := none

namespace Trail

variable {α : Type}

def cons (x : α) (t : Trail α) : Trail α :=
  { t with visited := x :: t.visited }

def toExcept (t : Trail α) : Except Fault (List α) :=
  match t.fault with
  | some f => .error f
  | none => .ok t.visited

end Trail

end MailThread
