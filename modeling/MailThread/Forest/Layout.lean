import MailThread.Arena.Walk
import MailThread.Envelope
import MailThread.Subject

namespace MailThread

def subjectAt (envelopes : Array Envelope) (message : Index) : Text :=
  match message.lookup envelopes with
  | some e => e.subject
  | none => .empty

/-- A layout in progress. -/
structure Layout where
  arena : Arena
  /-- The containers with a message, in the order of their first rows. -/
  emitted : Array Index := #[]
  /-- The subject of the first message of the current tree. -/
  firstSubject : Option Text := none

namespace Layout

def order (l : Layout) : List Index := l.emitted.toList

/-- Forgets what an earlier layout showed. -/
def reset (a : Arena) : Arena :=
  { a with containers := a.containers.map fun c =>
      { c with indentation := 0, showsSubject := true, shownParent := c.parent } }

/-- Gives the container of a visit its place. A placeholder takes up no level and is no parent that a
row shows. -/
def settle (envelopes : Array Envelope) (suppress : Bool) (l : Layout) (v : Visit) : Layout :=
  match l.arena.get? v.index with
  | none => l
  | some c =>
    let underPlaceholder : Bool := match c.parent with
      | some p => ((l.arena.get? p).map (·.isPlaceholder)).getD false
      | none => false
    let arena := l.arena.update v.index fun c =>
      { c with
        indentation := (v.level : Rat)
        shownParent := if underPlaceholder then none else c.shownParent }
    match c.message with
    | none => { l with arena }
    | some m =>
      let subject := subjectAt envelopes m
      let emitted := if l.emitted.contains v.index then l.emitted else l.emitted.push v.index
      match l.firstSubject with
      | none => { arena, emitted, firstSubject := some subject }
      | some first =>
        let hidden := suppress && Subject.repeats subject first
        let arena := arena.update v.index fun c =>
          { c with showsSubject := if hidden then false else c.showsSubject }
        { arena, emitted, firstSubject := some first }

def lostParent? (a : Arena) (i : Index) : Option Index :=
  match a.get? i with
  | some c => c.parent.filter fun p => (a.get? p).isNone
  | none => none

theorem size_settle (envelopes : Array Envelope) (suppress : Bool) (l : Layout) (v : Visit) :
    (l.settle envelopes suppress v).arena.size = l.arena.size := by
  cases hc : l.arena.get? v.index with
  | none => simp only [settle, hc]
  | some c =>
    cases hm : c.message with
    | none => simp only [settle, hc, hm, Arena.size_update]
    | some m => cases hf : l.firstSubject <;> simp only [settle, hc, hm, hf, Arena.size_update]

/-- Settles the containers on the stack, and after each of them those below it. Of one whose parent is
lost only the level is set, and the layout ends there. -/
def descend (envelopes : Array Envelope) (suppress : Bool) (l : Layout)
    (stack : List (Pending Visit)) : Layout × Option Fault :=
  match stack with
  | [] => (l, none)
  | p :: rest =>
    -- so many links down there is a circle
    if _hdeep : l.arena.size < p.depth then (l, some .endless)
    else
      match l.arena.get? p.entry.index with
      | none => (l, some (.noContainer p.entry.index l.arena.size))
      | some c =>
        match lostParent? l.arena p.entry.index with
        | some lost =>
          ({ l with arena := l.arena.update p.entry.index fun c =>
              { c with indentation := (p.entry.level : Rat) } },
            some (.noContainer lost l.arena.size))
        | none =>
          let level := if c.message.isSome then p.entry.level + 1 else p.entry.level
          let settled := l.settle envelopes suppress p.entry
          match _hkids : settled.arena.children p.entry.index with
          | .error fault => (settled, some fault)
          | .ok kids =>
            descend envelopes suppress settled
              (Pending.below p.depth (kids.map (⟨·, level⟩)) ++ rest)
termination_by Pending.weight (l.arena.size + 1) stack
decreasing_by
  have hlen := Arena.length_children_le _hkids
  rw [size_settle] at hlen ⊢
  exact Pending.weight_below_lt (by rwa [List.length_map]) (by omega)

def addTree (envelopes : Array Envelope) (suppress : Bool) (l : Layout) (root : Index) :
    Layout × Option Fault :=
  descend envelopes suppress { l with firstSubject := none } [⟨⟨root, 0⟩, 0⟩]

def addTrees (envelopes : Array Envelope) (suppress : Bool) :
    Layout → List Index → Layout × Option Fault
  | l, [] => (l, none)
  | l, root :: roots =>
    match l.addTree envelopes suppress root with
    | (l, some f) => (l, some f)
    | (l, none) => addTrees envelopes suppress l roots

/-- Lays out the trees below `roots` and says what cut the layout short. With `suppress` set, a row
does not show a subject that only repeats the one its tree starts with. -/
def compute (a : Arena) (envelopes : Array Envelope) (roots : List Index) (suppress : Bool) :
    Layout × Option Fault :=
  addTrees envelopes suppress { arena := reset a } roots

end Layout

end MailThread
