import MailThread.Assembly.Sent
import MailThread.Forest.Audit

namespace MailThread

/-- How a forest is built. -/
structure BuildOptions where
  suppressRepeated : Bool := true
  mergeSent : Bool := true
  verify : Bool := false
  /-- The name of the mailbox in reports. -/
  mailbox : Option String := none
deriving DecidableEq, Repr, Inhabited

/-- Where sent messages come from. -/
inductive SentFolder where
  | absent
  | folder (envelopes : List Envelope)
  /-- The mailbox itself. -/
  | own
deriving Repr, Inhabited

/-- What a build leaves behind. -/
structure Build where
  forest : Forest
  mailbox : Mailbox
  counts : BuildCounts
  events : List Event

namespace SentFolder

def isAbsent : SentFolder → Bool
  | absent => true
  | _ => false

def count (size : Nat) : SentFolder → Nat
  | absent => 0
  | folder es => es.length
  | own => size

def merge : SentFolder → Assembling Unit
  | absent => pure ()
  | folder es => Assembling.mergeFolder es
  | own => Assembling.mergeOwn

end SentFolder

namespace Build

/-- The pass over a mailbox and, where it is asked for, over the sent folder. -/
def assemble (merges : Bool) (inbox : Mailbox) (sent : SentFolder) : Assembling Unit := do
  inbox.envelopes.toList.forM Assembling.receive
  if merges && !sent.isAbsent then
    sent.merge
    Assembling.report (.sentMerged (← get).sent)

/-- What an assembly has become, provided that no fault stopped it. -/
def finish (r : EStateM.Result Fault Assembly Unit) : Except Fault Assembly :=
  match r with
  | .ok _ s => .ok s
  | .error f _ => .error f

def countsOf (s : Assembly) (roots : List Index) : BuildCounts :=
  { envelopes := s.mailbox.size
    containers := s.arena.size
    placeholders := s.arena.containers.countP (·.isPlaceholder)
    duplicates := s.tally.duplicates
    refused := s.tally.refused + s.sent.refused
    sentMerged := s.sent.merged
    roots := roots.length }

def auditEvents (f : Forest) : Except Fault (List Event) := do
  let flaws ← f.audit
  return if flaws.isEmpty then []
    else [.unsound flaws.length ((flaws.take 10).map Flaw.issue)]

/-- Builds the forest of a mailbox. Copies that an earlier build added are taken out first, so that a
second build of the same envelopes gives the same forest. -/
def run (o : BuildOptions) (m : Mailbox) (sent : SentFolder := .absent) : Except Fault Build := do
  let inbox := m.withoutCopies
  let removed := m.copyCount
  let s ← finish ((assemble o.mergeSent inbox sent).run {})
  let roots ← s.arena.roots
  let bare : Forest := { arena := s.arena, envelopes := s.mailbox.envelopes, roots }
  let forest ← match bare.layOut o.suppressRepeated with
    | (f, none) => pure f
    | (_, some fault) => throw fault
  let counts := countsOf s roots
  let audits ← if o.verify then auditEvents forest else pure []
  return {
    forest, counts
    mailbox := s.mailbox
    events := (if 0 < removed then [.copiesRemoved removed] else []) ++
      [.building inbox.size (sent.count inbox.size)] ++ s.events ++ audits ++ [.built counts] }

end Build

end MailThread
