import MailThread.Assembly.Basic

namespace MailThread.Assembling

def countSent (f : SentTally → SentTally) : Assembling Unit :=
  modify fun s => { s with sent := f s.sent }

/-- Takes a sent message over if it touches a conversation. -/
def mergeSent (e : Envelope) : Assembling Unit := do
  let own ← find? e.messageId
  let target ← find? e.inReplyTo
  match own, target with
  | none, none => countSent fun t => { t with ignored := t.ignored + 1 }
  | some i, target =>
    if (← container i).message.isSome then
      countSent fun t => { t with duplicates := t.duplicates + 1 }
      report (.sentPresent e.messageId)
    else
      place i e true
      countSent fun t => { t with merged := t.merged + 1 }
      let date := (← container i).date
      match target with
      | none => raise i date
      | some p =>
        if ← link i p then
          raise p date
        else
          countSent fun t => { t with refused := t.refused + 1 }
          report (.replyRefused e.messageId e.inReplyTo)
          raise i date
  | none, some p =>
    let i ← seat e.messageId
    place i e true
    countSent fun t => { t with merged := t.merged + 1 }
    let _ ← link i p
    raise p e.date

/-- Merges the messages of a sent folder in their order. -/
def mergeFolder (sent : List Envelope) : Assembling Unit :=
  sent.forM mergeSent

def arrivedSince (n : Nat) : Assembling (List Envelope) := do
  return (← get).mailbox.envelopes.toList.drop n

/-- Merges a mailbox that serves as its own sent folder, so that the copies just added are read as
well. A copy with a message id is not copied again; one without an id would be, for ever. -/
def mergeOwn : Assembling Unit := do
  let first ← arrivedSince 0
  mergeFolder first
  let copies ← arrivedSince first.length
  mergeFolder copies
  let more ← arrivedSince (first.length + copies.length)
  unless more.isEmpty do throw .endless

end MailThread.Assembling
