import MailThread.Envelope
import MailThread.Error

namespace MailThread.Intake

/-- Why a value is not accepted. -/
inductive Refusal where
  | missing
  | wrongKind (expected received : String)
  | notWhole
  | negative
deriving DecidableEq, Repr

def Refusal.message : Refusal → String
  | .missing => "Required"
  | .wrongKind expected received => "Expected " ++ expected ++ ", received " ++ received
  | .notWhole => "Expected integer, received float"
  | .negative => "Number must be greater than or equal to 0"

/-- A refusal and the keys that lead to the refused value. -/
structure Complaint where
  path : List String
  refusal : Refusal
deriving DecidableEq, Repr

namespace Complaint

def issue (c : Complaint) : Issue :=
  { field := ".".intercalate c.path, message := c.refusal.message }

def under (key : String) (c : Complaint) : Complaint :=
  { c with path := key :: c.path }

end Complaint

/-- A value that was accepted, or all complaints about it. -/
abbrev Checked (α : Type) := Except (List Complaint) α

def refuse {α : Type} (r : Refusal) : Checked α := .error [⟨[], r⟩]

def wrongKind {α : Type} (expected : String) (j : Json) : Checked α :=
  refuse (.wrongKind expected j.kind)

def complaints {α : Type} : Checked α → List Complaint
  | .ok _ => []
  | .error cs => cs

def under {α : Type} (key : String) (r : Checked α) : Checked α :=
  r.mapError (·.map (·.under key))

def collect {α : Type} : List (Checked α) → Checked (List α)
  | [] => .ok []
  | r :: rs =>
    match r, collect rs with
    | .ok a, .ok as => .ok (a :: as)
    | r, s => .error (complaints r ++ complaints s)

def items {α : Type} (check : Json → Checked α) (js : List Json) : Checked (List α) :=
  collect (js.mapIdx fun i j => under (toString i) (check j))

def text (j : Json) : Checked Text :=
  match j with
  | .str t => .ok t
  | j => wrongKind "string" j

def texts (j : Json) : Checked (List Text) :=
  match j with
  | .arr js => items text js
  | j => wrongKind "array" j

def wholeNumber (j : Json) : Checked Rat :=
  match j with
  | .num q => if Binary64.isWhole q then .ok q else refuse .notWhole
  | j => wrongKind "number" j

/-- A whole number that is not negative; a number may fail in both respects. -/
def position (j : Json) : Checked Index :=
  match j with
  | .num q =>
    if Binary64.isWhole q ∧ 0 ≤ q then .ok (Index.ofRat q)
    else .error ((if Binary64.isWhole q then [] else [⟨[], .notWhole⟩]) ++
      (if 0 ≤ q then [] else [⟨[], .negative⟩]))
  | j => wrongKind "number" j

def optionalPosition (j : Json) : Checked (Option Index) :=
  match j with
  | .null => .ok none
  | j => (position j).map some

def required {α : Type} (check : Json → Checked α) : Option Json → Checked α
  | some j => check j
  | none => refuse .missing

def optional {α : Type} (default : α) (check : Json → Checked α) : Option Json → Checked α
  | some j => check j
  | none => .ok default

/-- The envelope of a record; fields that an envelope does not have are passed over. -/
def record (fields : List (String × Json)) : Checked Envelope :=
  let field {α : Type} (key : String) (check : Option Json → Checked α) : Checked α :=
    under key (check (fields.lookup key))
  let messageId := field "message_id" (required text)
  let references := field "references" (optional [] texts)
  let inReplyTo := field "in_reply_to" (optional .empty text)
  let date := field "date" (required wholeNumber)
  let subject := field "subject" (optional .empty text)
  let thread := field "thread" (optional none optionalPosition)
  match messageId, references, inReplyTo, date, subject, thread with
  | .ok messageId, .ok references, .ok inReplyTo, .ok date, .ok subject, .ok thread =>
    .ok { messageId, references, inReplyTo, date, subject, thread }
  | _, _, _, _, _, _ =>
    .error (complaints messageId ++ complaints references ++ complaints inReplyTo ++
      complaints date ++ complaints subject ++ complaints thread)

def envelope (j : Json) : Checked Envelope :=
  match j with
  | .obj fields => record fields
  | j => wrongKind "object" j

def envelopes (j : Json) : Checked (List Envelope) :=
  match j with
  | .arr js => items envelope js
  | j => wrongKind "array" j

def report {α : Type} (r : Checked α) : Except ThreadError α :=
  r.mapError fun cs => .invalidRecords (cs.map Complaint.issue)

/-- Takes one envelope over from a value that may be missing. -/
def readEnvelope (j : Option Json) : Except ThreadError Envelope :=
  report (required envelope j)

/-- Takes a list of envelopes over. One bad record refuses them all, and every complaint is told. -/
def readEnvelopes (j : Option Json) : Except ThreadError (List Envelope) :=
  report (required envelopes j)

/-- The envelopes of a mailbox, with those of a sent folder if there is one. -/
structure Bundle where
  inbox : List Envelope
  sent : Option (List Envelope)
deriving DecidableEq, Repr

/-- Takes a dump over: an object with an inbox and perhaps a sent folder, or the list of an inbox. -/
def readBundle (j : Option Json) : Except ThreadError Bundle := do
  match j with
  | some (.obj fields) =>
    match fields.lookup "inbox" with
    | none => return { inbox := ← readEnvelopes j, sent := none }
    | some inbox =>
      let inbox ← readEnvelopes (some inbox)
      match fields.lookup "sent" with
      | none | some .null => return { inbox, sent := none }
      | some sent => return { inbox, sent := some (← readEnvelopes (some sent)) }
  | j => return { inbox := ← readEnvelopes j, sent := none }

end MailThread.Intake
