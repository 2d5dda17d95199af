import MailThread.Issue
import MailThread.Log.Level

namespace MailThread

/-- Counts of the pass over a mailbox. -/
structure Tally where
  duplicates : Nat := 0
  refused : Nat := 0
deriving DecidableEq, Repr, Inhabited

/-- Counts of the pass over a sent folder. -/
structure SentTally where
  merged : Nat := 0
  duplicates : Nat := 0
  ignored : Nat := 0
  refused : Nat := 0
deriving DecidableEq, Repr, Inhabited

/-- Counts of a finished build. -/
structure BuildCounts where
  envelopes : Nat
  containers : Nat
  placeholders : Nat
  duplicates : Nat
  refused : Nat
  sentMerged : Nat
  roots : Nat
deriving DecidableEq, Repr, Inhabited

def SentTally.fields (t : SentTally) : List (String × Json) :=
  [("merged", .nat t.merged), ("duplicates", .nat t.duplicates), ("ignored", .nat t.ignored),
    ("refused_links", .nat t.refused)]

def BuildCounts.fields (s : BuildCounts) : List (String × Json) :=
  [("envelopes", .nat s.envelopes), ("containers", .nat s.containers),
    ("placeholders", .nat s.placeholders), ("duplicates", .nat s.duplicates),
    ("refused_links", .nat s.refused), ("sent_merged", .nat s.sentMerged),
    ("roots", .nat s.roots)]

/-- What happens during a run of the program. -/
inductive Event where
  | copiesRemoved (count : Nat)
  | building (messages sent : Nat)
  | duplicateSkipped (messageId : Text) (position : Nat)
  | linkRefused (messageId parentId : Text)
  | sentPresent (messageId : Text)
  | replyRefused (messageId inReplyTo : Text)
  | sentMerged (tally : SentTally)
  | unsound (count : Nat) (first : List Issue)
  | built (counts : BuildCounts)
  | printed (counts : BuildCounts)
deriving Repr, Inhabited

namespace Event

def level : Event → Level
  | building .. | built .. | printed .. => .info
  | unsound .. => .warn
  | _ => .debug

def message : Event → String
  | copiesRemoved .. => "Removed sent copies from previous build"
  | building .. => "Building conversation threads"
  | duplicateSkipped .. => "Skipping duplicate Message-ID"
  | linkRefused .. => "Refused link that would close a cycle"
  | sentPresent .. => "Skipping sent message already present in mailbox"
  | replyRefused .. => "Refused sent-folder link that would close a cycle"
  | sentMerged .. => "Merged sent folder"
  | unsound .. => "Thread forest violates invariants"
  | built .. => "Built conversation threads"
  | printed .. => "Printed threads"

def details : Event → List (String × Json)
  | copiesRemoved n => [("removedCopies", .nat n)]
  | building messages sent => [("messageCount", .nat messages), ("sentCount", .nat sent)]
  | duplicateSkipped id position => [("messageId", .str id), ("envelopeIndex", .nat position)]
  | linkRefused id parent => [("messageId", .str id), ("parentId", .str parent)]
  | sentPresent id => [("messageId", .str id)]
  | replyRefused id target => [("messageId", .str id), ("inReplyTo", .str target)]
  | sentMerged tally => tally.fields
  | unsound count first =>
    [("issueCount", .nat count), ("issues", .arr (first.map Issue.json))]
  | built counts | printed counts => counts.fields

/-- Whether an event belongs to a build, and not to the program around it. -/
def isOfBuild : Event → Bool
  | printed .. => false
  | _ => true

end Event

/-- A report, together with the mailbox on whose behalf it is made. -/
structure Report where
  event : Event
  mailbox : Option String := none
deriving Repr, Inhabited

end MailThread
