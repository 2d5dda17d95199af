import MailThread.Arena.Basic
import MailThread.Pending

namespace MailThread

/-- A container met on the way through a tree, and the number of messages above it. -/
structure Visit where
  index : Index
  level : Nat
deriving DecidableEq, Repr

namespace Arena

/-- The list of siblings that starts at `start`, of at most `bound` steps. -/
def siblings (a : Arena) : Nat → Option Index → Trail Index
  | _, none => { visited := [] }
  | 0, some _ => { visited := [], fault := some .endless }
  | bound + 1, some i =>
    match a.get? i with
    | none => { visited := [i], fault := some (.noContainer i a.size) }
    | some c => (a.siblings bound c.nextSibling).cons i

/-- The child list of `c`. A list without repetition has at most one link more than there are
containers. -/
def childTrail (a : Arena) (c : Container) : Trail Index :=
  a.siblings (a.size + 1) c.firstChild

/-- The children of the container at `i`, in their order. -/
def children (a : Arena) (i : Index) : Except Fault (List Index) := do
  let c ← a.get i
  (a.childTrail c).toExcept

theorem length_siblings_le (a : Arena) (bound : Nat) (start : Option Index) :
    (a.siblings bound start).visited.length ≤ bound := by
  fun_induction siblings a bound start with
  | case1 | case2 => simp
  | case3 => simp
  | case4 bound i c hc ih => exact Nat.succ_le_succ ih

theorem length_children_le {a : Arena} {i : Index} {kids : List Index}
    (h : a.children i = .ok kids) : kids.length ≤ a.size + 1 := by
  unfold children at h
  cases hc : a.get i with
  | error fault =>
    rw [hc] at h
    cases h
  | ok c =>
    rw [hc] at h
    change (a.childTrail c).toExcept = .ok kids at h
    unfold Trail.toExcept at h
    split at h
    · cases h
    · cases h
      exact a.length_siblings_le (a.size + 1) c.firstChild

/-- Looks for `target` among the containers on the worklist and all that lies below them. Containers
with children are expanded once each and then among `seen`, so that links in a circle do not matter.
Below an index that is missing lies nothing. -/
def search (a : Arena) (target : Index) (seen work : List Index) : Except Fault Bool :=
  match work with
  | [] => .ok false
  | i :: rest =>
    if i = .missing then a.search target seen rest
    else if i = target then .ok true
    else
      match _hc : a.get? i with
      | none => .error (.noContainer i a.size)
      | some c =>
        if c.firstChild.isNone then a.search target seen rest
        else if _hi : i ∈ seen then a.search target seen rest
        else
          let kids := a.childTrail c
          if target ∈ kids.visited then .ok true
          else
            match kids.fault with
            | some f => .error f
            | none => a.search target (i :: seen) (kids.visited.reverse ++ rest)
termination_by ((a.indices.filter (· ∉ seen)).length, work.length)
decreasing_by
  · exact Prod.Lex.right _ (by simp)
  · exact Prod.Lex.right _ (by simp)
  · exact Prod.Lex.right _ (by simp)
  · refine Prod.Lex.left _ _ ?_
    have hsplit : a.indices.filter (· ∉ i :: seen) =
        (a.indices.filter (· ∉ seen)).filter (· ≠ i) := by simp [List.filter_filter]
    rw [hsplit, List.length_filter_lt_length_iff_exists]
    exact ⟨i, by simp [mem_indices_of_get? _hc, _hi]⟩

/-- Whether `node` is `ancestor` or lies below it. -/
def isBelow (a : Arena) (node ancestor : Index) : Except Fault Bool :=
  a.search node [] [ancestor]

/-- The containers met on the way up from `i`, itself included, at most `bound` of them. -/
def ascent (a : Arena) : Nat → Option Index → Trail Index
  | 0, _ => { visited := [] }
  | _ + 1, none => { visited := [] }
  | bound + 1, some i =>
    match a.get? i with
    | none => { visited := [], fault := some (.noContainer i a.size) }
    | some c => (a.ascent bound c.parent).cons i

/-- The way up from `i`. Without a circle it meets no container twice. -/
def wayUp (a : Arena) (i : Index) : Trail Index :=
  a.ascent (a.size + 1) (some i)

/-- The topmost ancestor of `i`. -/
def root (a : Arena) (i : Index) : Except Fault Index := do
  let path ← (a.wayUp i).toExcept
  return path.getLast?.getD i

/-- Raises the date of `i` and of all its ancestors to `date` at least. What was raised before the
way up broke off stays raised. -/
def raise (a : Arena) (i : Index) (date : Rat) : Arena × Option Fault :=
  let path := a.wayUp i
  (path.visited.foldl (fun a j => a.update j fun c => { c with date := later c.date date }) a,
    path.fault)

end Arena

end MailThread
