import MailThread.Text.Basic
import MailThread.Trail

namespace MailThread

/-- A node of the forest: it holds a message, or is the placeholder of one that was only named. -/
structure Container where
  /-- The position of the message in its mailbox. -/
  message : Option Index := none
  parent : Option Index := none
  /-- The parent as rows show it. -/
  shownParent : Option Index := none
  firstChild : Option Index := none
  nextSibling : Option Index := none
  lastChild : Option Index := none
  date : Rat := 0
  /-- The number of levels by which the row stands in. -/
  indentation : Rat := 0
  showsSubject : Bool := true
deriving DecidableEq, Repr, Inhabited

def Container.isPlaceholder (c : Container) : Bool := c.message.isNone

/-- Containers, and the container of each message id in the order in which the ids came up. A container
is named by its position; its children form a list that starts at `firstChild` and runs along
`nextSibling`. -/
structure Arena where
  containers : Array Container := #[]
  ids : List (Text × Index) := []
deriving DecidableEq, Repr, Inhabited

def later (d e : Rat) : Rat := if d ≤ e then e else d

namespace Arena

def size (a : Arena) : Nat := a.containers.size

def get? (a : Arena) (i : Index) : Option Container := i.lookup a.containers

def get (a : Arena) (i : Index) : Except Fault Container :=
  match a.get? i with
  | some c => .ok c
  | none => .error (.noContainer i a.size)

def update (a : Arena) (i : Index) (f : Container → Container) : Arena :=
  match i with
  | .slot n => { a with containers := a.containers.modify n f }
  | .stray _ => a

@[simp] theorem size_update (a : Arena) (i : Index) (f : Container → Container) :
    (a.update i f).size = a.size := by
  cases i <;> simp [update, size]

def indices (a : Arena) : List Index := (List.range a.size).map .slot

theorem mem_indices {a : Arena} {i : Index} : i ∈ a.indices ↔ ∃ c, a.get? i = some c := by
  cases i with
  | slot n =>
    simp only [indices, get?, Index.lookup, size, List.mem_map, List.mem_range, Index.slot.injEq,
      exists_eq_right]
    exact ⟨fun h => ⟨_, Array.getElem?_eq_getElem h⟩,
      fun ⟨_, h⟩ => (Array.getElem?_eq_some_iff.1 h).1⟩
  | stray q => simp [indices, get?, Index.lookup]

theorem mem_indices_of_get? {a : Arena} {i : Index} {c : Container}
    (h : a.get? i = some c) : i ∈ a.indices :=
  mem_indices.2 ⟨c, h⟩

/-- The container of a message id. -/
def find? (a : Arena) (messageId : Text) : Option Index := a.ids.lookup messageId

/-- Names `i` as the container of a message id; an id that is known keeps its place. -/
def assign (a : Arena) (messageId : Text) (i : Index) : Arena :=
  if (a.find? messageId).isSome then
    { a with ids := a.ids.map fun (k, v) => if k = messageId then (k, i) else (k, v) }
  else { a with ids := a.ids ++ [(messageId, i)] }

def append (a : Arena) : Index × Arena :=
  (.slot a.size, { a with containers := a.containers.push {} })

/-- The container of a message id, a new placeholder when the id was not known. -/
def claim (a : Arena) (messageId : Text) : Index × Arena :=
  match a.find? messageId with
  | some i => (i, a)
  | none => (.slot a.size, { a.append.2 with ids := a.ids ++ [(messageId, .slot a.size)] })

/-- Puts the message at position `message` into the container `i`. A container that has children
keeps the later one of the two dates. -/
def bind (a : Arena) (i message : Index) (date : Rat) : Except Fault Arena := do
  let _ ← a.get i
  return a.update i fun c =>
    { c with
      message := some message
      date := if c.firstChild.isSome then later c.date date else date }

end Arena

end MailThread
