import MailThread.Forest.Basic
import MailThread.Issue

namespace MailThread

/-- A contradiction in a forest. -/
inductive Flaw where
  | idOutside (messageId : Text) (index : Index)
  | idsShare (index : Index) (first second : Text)
  | listLoops (parent : Index)
  | listedTwice (child first second : Index)
  | otherParent (child lister : Index)
  | notListed (child parent : Index)
  | inCycle (index : Index)
  | childless (index : Index)
  | newerThanParent (child parent : Index) (date : Rat)
  | boundTwice (envelope first second : Index)
  | notPointedBack (envelope container : Index)
  | pointsElsewhere (envelope container : Index)
deriving DecidableEq, Repr

namespace Flaw

def field : Flaw → String
  | idOutside .. | idsShare .. => "index"
  | listLoops .. => "firstChild"
  | listedTwice .. | otherParent .. | notListed .. | inCycle .. => "parent"
  | childless .. | boundTwice .. => "message"
  | newerThanParent .. => "date"
  | notPointedBack .. | pointsElsewhere .. => "thread"

def message : Flaw → String
  | idOutside id _ => "Message-ID " ++ id.toString ++ " points outside the arena"
  | idsShare i id id' =>
    "Container " ++ i.text ++ " is indexed under both " ++ id.toString ++ " and " ++ id'.toString
  | listLoops p => "Child list of " ++ p.text ++ " loops"
  | listedTwice c p p' =>
    "Container " ++ c.text ++ " is listed under both " ++ p.text ++ " and " ++ p'.text
  | otherParent c p =>
    "Container " ++ c.text ++ " is listed under " ++ p.text ++ " but points at another parent"
  | notListed c p => "Container " ++ c.text ++ " is missing from the child list of " ++ p.text
  | inCycle i => "Container " ++ i.text ++ " is part of a cycle"
  | childless i => "Placeholder " ++ i.text ++ " has no children"
  | newerThanParent c p _ => "Container " ++ c.text ++ " is newer than its parent " ++ p.text
  | boundTwice e c c' =>
    "Envelope " ++ e.text ++ " is bound to both " ++ c.text ++ " and " ++ c'.text
  | notPointedBack e c =>
    "Envelope " ++ e.text ++ " does not point back at container " ++ c.text
  | pointsElsewhere e c =>
    "Envelope " ++ e.text ++ " points at container " ++ c.text ++ " which holds another message"

def value? : Flaw → Option Rat
  | idOutside _ i | idsShare i _ _ | listLoops i | inCycle i | childless i => i.toRat?
  | listedTwice c _ _ | otherParent c _ | notListed c _ => c.toRat?
  | newerThanParent _ _ date => some date
  | boundTwice e _ _ | notPointedBack e _ => e.toRat?
  | pointsElsewhere _ c => c.toRat?

def issue (f : Flaw) : Issue :=
  { field := f.field, message := f.message, value := f.value?.map .num }

end Flaw

namespace Arena

/-- The entries of the id index that name no container, or one that an earlier entry names. The last
owner of a container stands first in `owners`. -/
def indexFlaws (a : Arena) : List (Index × Text) → List (Text × Index) → List Flaw
  | _, [] => []
  | owners, (id, i) :: rest =>
    if i.outside a.size then .idOutside id i :: a.indexFlaws owners rest
    else
      ((owners.lookup i).map fun owner => Flaw.idsShare i owner id).toList ++
        a.indexFlaws ((i, id) :: owners) rest

def next? (a : Arena) (i : Index) : Option Index :=
  (a.get? i).bind (·.nextSibling)

def parent? (a : Arena) (i : Index) : Option Index :=
  (a.get? i).bind (·.parent)

/-- The child list that starts at `start`, up to the first child that stands in it already, and
whether there is such a child. An index without a container ends the list. -/
def listing (a : Arena) : Nat → List Index → Option Index → List Index × Bool
  | _, _, none => ([], false)
  | 0, _, some _ => ([], true)
  | bound + 1, seen, some i =>
    if i ∈ seen then ([], true)
    else
      let (rest, loops) := a.listing bound (i :: seen) (a.next? i)
      (i :: rest, loops)

def childListing (a : Arena) (c : Container) : List Index × Bool :=
  a.listing (a.size + 2) [] c.firstChild

/-- The flaws of the children that `p` lists, where `listers` says who listed which child before,
the last one first. -/
def childFlaws (a : Arena) (p : Index) :
    List (Index × Index) → List Index → List Flaw × List (Index × Index)
  | listers, [] => ([], listers)
  | listers, child :: rest =>
    let twice := ((listers.lookup child).map fun q => Flaw.listedTwice child q p).toList
    let other := if a.parent? child = some p then [] else [Flaw.otherParent child p]
    let (flaws, listers) := a.childFlaws p ((child, p) :: listers) rest
    (twice ++ other ++ flaws, listers)

def listFlaws (a : Arena) :
    List (Index × Index) → List (Index × Container) → List Flaw × List (Index × Index)
  | listers, [] => ([], listers)
  | listers, (p, c) :: rest =>
    let (children, loops) := a.childListing c
    let (flaws, listers) := a.childFlaws p listers children
    let (more, listers) := a.listFlaws listers rest
    (flaws ++ (if loops then [Flaw.listLoops p] else []) ++ more, listers)

/-- Whether the way up from `start` comes back to `i` or does not end within `bound` steps. -/
def circles (a : Arena) (i : Index) : Nat → Option Index → Bool
  | _, none => false
  | 0, some _ => true
  | bound + 1, some j => if j = i then true else a.circles i bound (a.parent? j)

def parentFlaws (a : Arena) (listers : List (Index × Index)) (i : Index) (c : Container) :
    List Flaw :=
  (match c.parent with
    | some p => if listers.lookup i = some p then [] else [Flaw.notListed i p]
    | none => []) ++
  (if a.circles i (a.size + 1) c.parent then [Flaw.inCycle i] else [])

def contentFlaws (a : Arena) (i : Index) (c : Container) : List Flaw :=
  (if c.isPlaceholder && c.firstChild.isNone then [Flaw.childless i] else []) ++
  (match c.parent with
    | some p =>
      match a.get? p with
      | some parent => if parent.date < c.date then [Flaw.newerThanParent i p c.date] else []
      | none => []
    | none => [])

def numbered (a : Arena) : List (Index × Container) :=
  a.indices.zip a.containers.toList

end Arena

namespace Forest

/-- The flaws of the bindings of containers to envelopes, where `holders` says which container holds
which envelope, the last one first. -/
def bindingFlaws (f : Forest) : List (Index × Index) → List (Index × Container) → List Flaw
  | _, [] => []
  | holders, (i, c) :: rest =>
    match c.message with
    | none => f.bindingFlaws holders rest
    | some m =>
      ((holders.lookup m).map fun j => Flaw.boundTwice m j i).toList ++
        (if (m.lookup f.envelopes).bind (·.thread) = some i then [] else [Flaw.notPointedBack m i]) ++
        f.bindingFlaws ((m, i) :: holders) rest

def referenceFlaw (f : Forest) (envelope : Index) (e : Envelope) : Except Fault (List Flaw) :=
  match e.thread with
  | none => .ok []
  | some t => do
    return if (← f.holderOf envelope).isSome then [] else [Flaw.pointsElsewhere envelope t]

def numberedEnvelopes (f : Forest) : List (Index × Envelope) :=
  ((List.range f.envelopes.size).map .slot).zip f.envelopes.toList

/-- All flaws of a forest, which may be broken in any way. -/
def audit (f : Forest) : Except Fault (List Flaw) := do
  let containers := f.arena.numbered
  let (lists, listers) := f.arena.listFlaws [] containers
  let references ← f.numberedEnvelopes.mapM fun (i, e) => f.referenceFlaw i e
  return f.arena.indexFlaws [] f.arena.ids ++ lists ++
    containers.flatMap (fun (i, c) => f.arena.parentFlaws listers i c) ++
    containers.flatMap (fun (i, c) => f.arena.contentFlaws i c) ++
    f.bindingFlaws [] containers ++ references.flatten

end Forest

end MailThread
