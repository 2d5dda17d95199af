import MailThread.Error
import MailThread.Text.Blank
import MailThread.Text.Case

namespace MailThread

/-- What rows are ordered by. -/
structure RowKey where
  date : Rat
  subject : Text
deriving DecidableEq, Repr

inductive RowField where
  | date
  | subject
deriving DecidableEq, Repr, Inhabited

inductive Direction where
  | ascending
  | descending
deriving DecidableEq, Repr, Inhabited

/-- Rows by one field of their keys; rows with equal fields keep the order they have. -/
structure RowOrder where
  field : RowField
  direction : Direction
deriving DecidableEq, Repr, Inhabited

def RowField.text : RowField → String
  | .date => "date"
  | .subject => "subject"

def RowField.ofText? (t : Text) : Option RowField :=
  [RowField.date, .subject].find? fun f => f.text = t

def Direction.text : Direction → String
  | .ascending => "asc"
  | .descending => "desc"

def Direction.ofText? (t : Text) : Option Direction :=
  [Direction.ascending, .descending].find? fun d => d.text = t

namespace RowOrder

def colon : UInt16 := 0x3A

/-- Reads `field` or `field:direction`, in letters of any case; the direction is descending where none
is given. -/
def ofText? (value : Text) : Option RowOrder := do
  match (Text.pieces colon value.trim.lower.units).map Text.mk with
  | [field] => return { field := ← RowField.ofText? field, direction := .descending }
  | [field, direction] =>
    return { field := ← RowField.ofText? field, direction := ← Direction.ofText? direction }
  | _ => none

def parse (value : Text) (option : String := "sort") : Except ThreadError RowOrder :=
  match ofText? value with
  | some o => .ok o
  | none => .error (.badFormat option "date|subject[:asc|desc]" (some (.str value)))

/-- Whether `a` comes before `b` or level with it when the field grows. Subjects are compared in lower
case. -/
def fieldLe (f : RowField) (a b : RowKey) : Bool :=
  match f with
  | .date => a.date ≤ b.date
  | .subject => (a.subject.lower.compare b.subject.lower).isLE

def le (o : RowOrder) (a b : RowKey) : Bool :=
  match o.direction with
  | .ascending => fieldLe o.field a b
  | .descending => fieldLe o.field b a

end RowOrder

end MailThread
