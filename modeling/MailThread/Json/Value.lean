import MailThread.Text.Basic

namespace MailThread

inductive Json where
  | null
  | bool (b : Bool)
  | num (q : Rat)
  | str (t : Text)
  | arr (items : List Json)
  | obj (fields : List (String × Json))
deriving Inhabited, BEq, Repr

namespace Json

def putField (fields : List (String × Json)) (key : String) (value : Json) :
    List (String × Json) :=
  match fields with
  | [] => [(key, value)]
  | (k, v) :: rest => if k = key then (k, value) :: rest else (k, v) :: putField rest key value

def mergeFields (first second : List (String × Json)) : List (String × Json) :=
  second.foldl (fun fields (k, v) => putField fields k v) first

def field? (j : Json) (key : String) : Option Json :=
  match j with
  | obj fields => fields.lookup key
  | _ => none

/-- The parts of a value with their keys: the fields of an object, and the items of a list or the units
of a text by their positions. -/
def entries : Json → List (String × Json)
  | obj fields => fields
  | arr items => items.mapIdx fun i j => (toString i, j)
  | str t => t.units.mapIdx fun i u => (toString i, str ⟨[u]⟩)
  | _ => []

def kind : Json → String
  | null => "null"
  | bool _ => "boolean"
  | num _ => "number"
  | str _ => "string"
  | arr _ => "array"
  | obj _ => "object"

def nat (n : Nat) : Json := num (n : Rat)

end Json

end MailThread
