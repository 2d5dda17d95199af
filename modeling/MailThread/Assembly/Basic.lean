import MailThread.Arena.Link
import MailThread.Reference
import MailThread.Journal

namespace MailThread

/-- A forest under construction, with the envelopes received so far. -/
structure Assembly where
  arena : Arena := {}
  mailbox : Mailbox := {}
  tally : Tally := {}
  sent : SentTally := {}
  events : List Event := []
deriving Inhabited

/-- Steps of an assembly. What a step changed before a fault stays changed. -/
abbrev Assembling := EStateM Fault Assembly

namespace Assembling

def report (e : Event) : Assembling Unit :=
  modify fun s => { s with events := s.events ++ [e] }

def pushEntry (e : Entry) : Assembling Unit :=
  modify fun ⟨arena, mailbox, tally, sent, events⟩ => ⟨arena, mailbox.push e, tally, sent, events⟩

def lift {α : Type} (r : Except Fault α) : Assembling α :=
  match r with
  | .ok a => pure a
  | .error f => throw f

def find? (messageId : Text) : Assembling (Option Index) := do
  let s ← get
  return if messageId = .empty then none else s.arena.find? messageId

def container (i : Index) : Assembling Container := do
  lift ((← get).arena.get i)

def onArena {α : Type} (step : Arena → α × Arena) : Assembling α :=
  modifyGet fun ⟨arena, mailbox, tally, sent, events⟩ =>
    let (x, arena) := step arena
    (x, ⟨arena, mailbox, tally, sent, events⟩)

/-- A container for a message that comes in: that of its id, or a new one where it has no id. -/
def seat (messageId : Text) : Assembling Index :=
  onArena fun a => if messageId = .empty then a.append else a.claim messageId

/-- Adds an envelope to the mailbox and puts it into the container `i`. -/
def place (i : Index) (e : Envelope) (isCopy : Bool) : Assembling Unit := do
  let position := (← get).mailbox.size
  let arena ← lift ((← get).arena.bind i (.slot position) e.date)
  modify fun s => { s with arena }
  pushEntry { envelope := { e with thread := some i }, isCopy }

/-- The container of a message that is named as a parent; a new one starts with the date of its
child. -/
def parentSeat (messageId : Text) (date : Rat) : Assembling Index := do
  let s ← get
  match s.arena.find? messageId with
  | some p => return p
  | none =>
    let (p, arena) := s.arena.claim messageId
    set { s with arena := arena.update p fun c => { c with date } }
    return p

/-- Links `child` under `p` and tells whether it could. -/
def link (child p : Index) : Assembling Bool := do
  lift (← onArena fun a => (a.link child p).swap)

def raise (i : Index) (date : Rat) : Assembling Unit := do
  match ← onArena fun a => (a.raise i date).swap with
  | some f => throw f
  | none => return

/-- Receives an envelope of the mailbox. The first envelope with a message id keeps its container; a
later one stays without. -/
def receive (e : Envelope) : Assembling Unit := do
  let taken ← match ← find? e.messageId with
    | some i => pure (← container i).message.isSome
    | none => pure false
  if taken then
    let position := (← get).mailbox.size
    modify fun s => { s with tally := { s.tally with duplicates := s.tally.duplicates + 1 } }
    report (.duplicateSkipped e.messageId position)
    pushEntry { envelope := { e with thread := none } }
  else
    let i ← seat e.messageId
    place i e false
    let date := (← container i).date
    match e.parentId? with
    | none => raise i date
    | some parentId =>
      let p ← parentSeat parentId date
      if ← link i p then
        raise p date
      else
        modify fun s => { s with tally := { s.tally with refused := s.tally.refused + 1 } }
        report (.linkRefused e.messageId parentId)
        raise i date

end Assembling

/-- Starts from nothing and receives the envelopes of a mailbox in their order. -/
def Assembly.ofMailbox (m : Mailbox) : EStateM.Result Fault Assembly Unit :=
  (m.envelopes.toList.forM Assembling.receive).run {}

end MailThread
