import MailThread.Number.Binary64
import MailThread.Text.Glob

namespace MailThread.Subject

def replyMark : Text := "Re: "

/-- Whether a subject says no more than that of the message a conversation starts with. -/
def repeats (subject first : Text) : Bool :=
  subject == first || subject == replyMark ++ first

/-- The place up to which a list of `count` elements is kept for an end at `width`: a width below zero
counts from the end of the list. -/
def cutPlace (count : Nat) (width : Rat) : Nat :=
  let w := Binary64.truncate width
  if w < 0 then (count + w).toNat else min w.toNat count

/-- The subject, cut to `width` code points where it is longer. -/
def cut (subject : Text) (width : Rat) : Text :=
  let ns := subject.codePoints
  if (ns.length : Rat) ≤ width then subject
  else Text.ofCodePoints (ns.take (cutPlace ns.length width))

/-- Whether a subject meets a search term, the case of letters aside. A term with a star is a pattern
of the whole subject, any other one has to stand somewhere in it, and the empty one is met always. A
term of any length has an answer here: that an engine refuses a pattern beyond some size is left out. -/
def meets (subject term : Text) : Bool :=
  if term = Text.empty then true
  else if Text.Glob.star ∈ term.units then Text.Glob.accepts term.units subject.units
  else Text.Glob.occursIn (Text.lower term).units (Text.lower subject).units

end MailThread.Subject
