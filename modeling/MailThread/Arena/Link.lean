import MailThread.Arena.Walk

namespace MailThread.Arena

def related (a : Arena) (child p : Index) : Except Fault Bool := do
  if ← a.isBelow p child then return true
  a.isBelow child p

/-- Takes `child` out of the child list of `p`, where `before` stands in front of it. -/
def unlist (a : Arena) (p : Index) (before : Option Index) (child : Index) (next : Option Index) :
    Arena :=
  let a := match before with
    | none => a.update p fun c => { c with firstChild := next }
    | some b => a.update b fun c => { c with nextSibling := next }
  a.update p fun c => if c.lastChild = some child then { c with lastChild := before } else c

/-- Takes `child` out of the tree of its parent, if it has one. -/
def detach (a : Arena) (child : Index) : Except Fault Arena := do
  let c ← a.get child
  match c.parent with
  | none => return a
  | some p =>
    let list := a.childTrail (← a.get p)
    let a ←
      if child ∈ list.visited then
        pure (a.unlist p (list.visited.takeWhile (· ≠ child)).getLast? child c.nextSibling)
      else
        match list.fault with
        | some f => throw f
        | none => pure a
    return a.update child fun c =>
      { c with parent := none, shownParent := none, nextSibling := none }

/-- Makes `child`, which has no parent, the last child of `p`. -/
def attach (a : Arena) (child p : Index) : Except Fault Arena := do
  let a ← match (← a.get p).lastChild with
    | none => pure (a.update p fun c => { c with firstChild := some child })
    | some last => do
      let _ ← a.get last
      pure (a.update last fun c => { c with nextSibling := some child })
  let a := a.update p fun c => { c with lastChild := some child }
  return a.update child fun c =>
    { c with parent := some p, shownParent := some p, nextSibling := none }

/-- Makes `child` the last child of `p` and tells whether it could: there is no such link when one of
the two lies below the other or is the other. A child that was taken out of its old tree stays out of
it when `p` cannot take it. -/
def link (a : Arena) (child p : Index) : Arena × Except Fault Bool :=
  match a.related child p with
  | .error f => (a, .error f)
  | .ok true => (a, .ok false)
  | .ok false =>
    match a.detach child with
    | .error f => (a, .error f)
    | .ok free =>
      match free.attach child p with
      | .error f => (free, .error f)
      | .ok linked => (linked, .ok true)

end MailThread.Arena
