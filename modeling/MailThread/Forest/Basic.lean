import MailThread.Forest.Layout
import MailThread.Forest.Roots

namespace MailThread

structure Forest where
  arena : Arena := {}
  envelopes : Array Envelope := #[]
  roots : List Index := []
  order : List Index := []
deriving Repr, Inhabited

namespace Forest

def size (f : Forest) : Nat := f.arena.size

def envelope? (f : Forest) (i : Index) : Except Fault (Option Envelope) := do
  return (← f.arena.get i).message.bind fun m => m.lookup f.envelopes

/-- The container of an envelope: the one its back-reference names, if that holds this envelope. -/
def holderOf (f : Forest) (envelope : Index) : Except Fault (Option Index) :=
  match (envelope.lookup f.envelopes).bind (·.thread) with
  | none => .ok none
  | some t =>
    if t.outside f.size then .ok none
    else do
      let c ← f.arena.get t
      return if c.message = some envelope then some t else none

/-- Adds the messages of the containers on the stack, and after each of them those of the containers
below it. -/
def collect (f : Forest) (messages : Array Index) (stack : List (Pending Index)) :
    Except Fault (Array Index) :=
  match stack with
  | [] => .ok messages
  | p :: rest =>
    if _hdeep : f.size < p.depth then .error .endless
    else
      match f.arena.get? p.entry with
      | none => .error (.noContainer p.entry f.size)
      | some c =>
        match _hkids : f.arena.children p.entry with
        | .error fault => .error fault
        | .ok kids =>
          f.collect (match c.message with
            | some m => messages.push m
            | none => messages) (Pending.below p.depth kids ++ rest)
termination_by Pending.weight (f.size + 1) stack
decreasing_by exact Pending.weight_below_lt (Arena.length_children_le _hkids) (by omega)

/-- The messages of the tree below `i`, in display order. -/
def messages (f : Forest) (i : Index) : Except Fault (List Index) := do
  return (← f.collect #[] [⟨i, 0⟩]).toList

def layOut (f : Forest) (suppress : Bool := true) : Forest × Option Fault :=
  match Layout.compute f.arena f.envelopes f.roots suppress with
  | (l, some fault) => ({ f with arena := l.arena }, some fault)
  | (l, none) => ({ f with arena := l.arena, order := l.order }, none)

end Forest

end MailThread
