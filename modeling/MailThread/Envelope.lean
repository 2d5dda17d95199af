import MailThread.Index
import MailThread.Text.Basic

namespace MailThread

/-- What is known of a message. Empty text stands for a header that is absent; references are listed
oldest first. -/
structure Envelope where
  messageId : Text := .empty
  references : List Text := []
  inReplyTo : Text := .empty
  /-- Seconds since the start of 1970. -/
  date : Rat := 0
  subject : Text := .empty
  /-- The container that holds the envelope. -/
  thread : Option Index := none
deriving DecidableEq, Repr, Inhabited

/-- An envelope of a mailbox. A copy was taken over from the sent folder by a build, and the next
build takes it out again. -/
structure Entry where
  envelope : Envelope
  isCopy : Bool := false
deriving DecidableEq, Repr, Inhabited

/-- Envelopes in their order of arrival. -/
structure Mailbox where
  entries : Array Entry := #[]
deriving DecidableEq, Repr, Inhabited

namespace Mailbox

def size (m : Mailbox) : Nat := m.entries.size

def envelopes (m : Mailbox) : Array Envelope := m.entries.map (·.envelope)

def push (m : Mailbox) (e : Entry) : Mailbox := ⟨m.entries.push e⟩

def ofEnvelopes (es : List Envelope) : Mailbox := ⟨(es.map fun e => { envelope := e }).toArray⟩

/-- Moves the entries from position `read` on that are no copies to the front, where the first `kept`
are already in their places, and tells how many are in their places then. -/
def compact (entries : Array Entry) (kept read : Nat) : Array Entry × Nat :=
  if _h : read < entries.size then
    if entries[read].isCopy then compact entries kept (read + 1)
    else compact (entries.setIfInBounds kept entries[read]) (kept + 1) (read + 1)
  else (entries, kept)
termination_by entries.size - read
decreasing_by
  · omega
  · rw [Array.size_setIfInBounds]
    omega

/-- The mailbox without the copies of earlier builds: what is behind the entries kept is cut off. -/
def withoutCopies (m : Mailbox) : Mailbox :=
  let (entries, kept) := compact m.entries 0 0
  ⟨entries.take kept⟩

def copyCount (m : Mailbox) : Nat := m.size - (compact m.entries 0 0).2

def entryAt? (m : Mailbox) (n : Nat) : Option Entry := m.entries[n]?

def erase (m : Mailbox) (n : Nat) : Mailbox := ⟨m.entries.eraseIdxIfInBounds n⟩

def update (m : Mailbox) (n : Nat) (f : Envelope → Envelope) : Mailbox :=
  ⟨m.entries.modify n fun e => { e with envelope := f e.envelope }⟩

def reverse (m : Mailbox) : Mailbox := ⟨m.entries.reverse⟩

def messageIds (m : Mailbox) : List Text := m.entries.toList.map (·.envelope.messageId)

end Mailbox

end MailThread
