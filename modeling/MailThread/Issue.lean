import MailThread.Json.Value

namespace MailThread

/-- What is wrong with a field, and the value found there where it is known. -/
structure Issue where
  field : String
  message : String
  value : Option Json := none
deriving Repr, Inhabited

def Issue.json (i : Issue) : Json :=
  .obj ([("field", .str i.field), ("message", .str i.message)] ++
    (i.value.map fun v => ("value", v)).toList)

end MailThread
