import MailThread.Envelope

namespace MailThread.Envelope

/-- The messages that `e` follows, oldest first: its references and then the message it replies to,
if the references do not hold it already. Empty names and the envelope's own are left out. -/
def followed (e : Envelope) : List Text :=
  let chain := e.references.filter fun r => r ≠ .empty ∧ r ≠ e.messageId
  if e.inReplyTo ≠ .empty ∧ e.inReplyTo ≠ e.messageId ∧ e.inReplyTo ∉ chain then
    chain ++ [e.inReplyTo]
  else chain

/-- The message under which `e` is placed: the latest one that it follows. -/
def parentId? (e : Envelope) : Option Text :=
  e.followed.getLast?

end MailThread.Envelope
