import MailThread.Arena.Walk

namespace MailThread.Arena

/-- What stands for the tree of the parentless container `i` in a listing: its only child, if `i` is
a placeholder with one child, and `i` itself otherwise. -/
def representative (a : Arena) (i : Index) : Except Fault Index := do
  let c ← a.get i
  match c.message, c.firstChild with
  | none, some child =>
    let only := (← a.get child).nextSibling.isNone
    return if only then child else i
  | _, _ => return i

def isParentless (a : Arena) (i : Index) : Bool :=
  match a.get? i with
  | some c => c.parent.isNone
  | none => false

def dateOf (a : Arena) (i : Index) : Rat :=
  match a.get? i with
  | some c => c.date
  | none => 0

/-- One root for each tree, the most recent first; of equal dates the one that was found first. -/
def roots (a : Arena) : Except Fault (List Index) := do
  let tops ← (a.indices.filter a.isParentless).mapM a.representative
  return tops.mergeSort fun i j => a.dateOf j ≤ a.dateOf i

end MailThread.Arena
