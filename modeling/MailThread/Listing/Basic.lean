import MailThread.Forest.Basic
import MailThread.Listing.Age
import MailThread.Listing.Order
import MailThread.Settings.Basic

namespace MailThread

/-- What a listing shows and how. -/
structure ListingStyle where
  /-- The present, in seconds since the start of 1970. -/
  now : Rat
  subjectWidth : Rat := ({} : Settings).subjectWidth
  windowDays : Rat := ({} : Settings).windowDays
  /-- The order of conversations; without one they come in the order of the roots. -/
  sort : Option RowOrder := none
  /-- The order of replies to one message; without one they come in the order of their links. -/
  subsort : Option RowOrder := none
  /-- Only conversations in which some subject meets this term are shown. -/
  filter : Text := .empty
deriving DecidableEq, Repr

def ListingStyle.nowAt (clock : Rat) : Rat := ((Binary64.div clock 1000).floor : Int)

structure Conversation where
  root : Index
  messages : List Index
  key : RowKey
deriving DecidableEq, Repr

structure ConversationLine where
  root : Index
  /-- The first message of the conversation. -/
  envelope : Index
  subject : Text
  messageCount : Nat
  date : Rat
  dateLabel : String
deriving DecidableEq, Repr

structure MessageLine where
  container : Index
  envelope : Index
  indentation : Rat
  /-- Empty where it only repeats the subject of the conversation. -/
  subject : Text
  date : Rat
  dateLabel : String
deriving DecidableEq, Repr

namespace Forest

/-- The conversation of a root, if it has messages and one of them meets the term. -/
def conversation? (f : Forest) (term : Text) (root : Index) :
    Except Fault (Option Conversation) := do
  let messages ← f.messages root
  let subjects := messages.map (subjectAt f.envelopes)
  match subjects with
  | [] => return none
  | first :: _ =>
    if subjects.any (Subject.meets · term) then
      return some { root, messages, key := { date := f.arena.dateOf root, subject := first } }
    else return none

def conversations (f : Forest) (o : ListingStyle) : Except Fault (List Conversation) := do
  let all ← f.roots.filterMapM (f.conversation? o.filter)
  match o.sort with
  | none => return all
  | some s => return all.mergeSort fun a b => s.le a.key b.key

def conversationLine (o : ListingStyle) (c : Conversation) : ConversationLine :=
  let subject := Subject.cut c.key.subject o.subjectWidth
  let count := c.messages.length
  { root := c.root
    envelope := c.messages.head?.getD default
    subject := if 1 < count then subject ++ Text.ofString (" (" ++ toString count ++ ")") else subject
    messageCount := count
    date := c.key.date
    dateLabel := Age.label c.key.date o.now o.windowDays }

/-- One row for each conversation. -/
def conversationLines (f : Forest) (o : ListingStyle) : Except Fault (List ConversationLine) := do
  return (← f.conversations o).map (conversationLine o)

def siblingKey (f : Forest) (i : Index) : RowKey :=
  let message := (f.arena.get? i).bind (·.message)
  { date := f.arena.dateOf i
    subject := match message with
      | some m => subjectAt f.envelopes m
      | none => .empty }

/-- Puts siblings into the order of a listing. -/
def arrange (f : Forest) (subsort : Option RowOrder) (siblings : List Index) : List Index :=
  match subsort with
  | none => siblings
  | some s => siblings.mergeSort fun i j => s.le (f.siblingKey i) (f.siblingKey j)

theorem length_arrange (f : Forest) (subsort : Option RowOrder) (siblings : List Index) :
    (f.arrange subsort siblings).length = siblings.length := by
  cases subsort with
  | none => rfl
  | some s => exact List.length_mergeSort siblings

def messageLine? (f : Forest) (o : ListingStyle) (i : Index) : Option MessageLine := do
  let c ← f.arena.get? i
  let m ← c.message
  let subject := if c.showsSubject then Subject.cut (subjectAt f.envelopes m) o.subjectWidth else .empty
  let date := match m.lookup f.envelopes with
    | some e => e.date
    | none => c.date
  return {
    container := i
    envelope := m
    indentation := c.indentation
    subject, date
    dateLabel := Age.label date o.now o.windowDays }

/-- Adds the rows of the containers on the stack, and after each of them those of the containers below
it. -/
def addRows (f : Forest) (o : ListingStyle) (rows : Array MessageLine)
    (stack : List (Pending Index)) : Except Fault (Array MessageLine) :=
  match stack with
  | [] => .ok rows
  | p :: rest =>
    if _hdeep : f.size < p.depth then .error .endless
    else
      match f.arena.get? p.entry with
      | none => .error (.noContainer p.entry f.size)
      | some _ =>
        match _hkids : f.arena.children p.entry with
        | .error fault => .error fault
        | .ok kids =>
          f.addRows o (match f.messageLine? o p.entry with
            | some row => rows.push row
            | none => rows) (Pending.below p.depth (f.arrange o.subsort kids) ++ rest)
termination_by Pending.weight (f.size + 1) stack
decreasing_by
  have hlen := Arena.length_children_le _hkids
  exact Pending.weight_below_lt (by rwa [length_arrange]) (by omega)

/-- One row for each message of the conversations shown, in the order of the trees. -/
def messageLines (f : Forest) (o : ListingStyle) : Except Fault (List MessageLine) := do
  let rows ← (← f.conversations o).foldlM (fun rows c => f.addRows o rows [⟨c.root, 0⟩]) #[]
  return rows.toList

end Forest

namespace Listing

def dateMark (label : String) : Text := "  [" ++ label ++ "]"

def lineEnd : UInt16 := 0x0A

def page (lines : List Text) : Text :=
  ⟨[lineEnd].intercalate (lines.map Text.units) ++ [lineEnd]⟩

def pageWidth (widths : List Nat) : Nat := widths.foldr Nat.add 0 + (widths.length - 1) + 1

end Listing

namespace MessageLine

def placeholder : Text := "↳"

def body (r : MessageLine) : Text :=
  (if r.subject = .empty then placeholder else r.subject) ++ Listing.dateMark r.dateLabel

def text (r : MessageLine) : Text :=
  Text.mk (List.replicate (2 * (Binary64.truncate r.indentation).toNat) 0x20) ++ r.body

def width (r : MessageLine) : Nat := 2 * (Binary64.truncate r.indentation).toNat + r.body.length

/-- The text of a row that may come from anywhere: none where the indentation is negative or the text
would be too long. -/
def text? (r : MessageLine) : Option Text :=
  if Binary64.truncate r.indentation < 0 ∨ Text.widest < r.width then none else some r.text

def texts? (lines : List MessageLine) : Option (List Text) := lines.mapM text?

end MessageLine

namespace ConversationLine

def text (r : ConversationLine) : Text := r.subject ++ Listing.dateMark r.dateLabel

def width (r : ConversationLine) : Nat := r.subject.length + (Listing.dateMark r.dateLabel).length

end ConversationLine

end MailThread
