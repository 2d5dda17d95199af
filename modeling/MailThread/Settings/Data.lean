import MailThread.Json.Value
import MailThread.Settings.Basic

namespace MailThread.Settings

def threadingFields (s : Settings) : List (String × Json) :=
  [("suppress_repeated_subjects", .bool s.suppressRepeated), ("merge_sent_folder", .bool s.mergeSent),
    ("verify_invariants", .bool s.verify)]

def listingFields (s : Settings) : List (String × Json) :=
  [("subject_max_length", .num s.subjectWidth), ("relative_date_window_days", .num s.windowDays)]

def data (s : Settings) : Json :=
  .obj [("threading", .obj s.threadingFields), ("listing", .obj s.listingFields)]

/-- The settings with the entries of each group of `change` written over them. A group may hold any
data, and one that is missing changes nothing. -/
def dataWith (s : Settings) (change : Option Json) : Json :=
  let changed (key : String) (fields : List (String × Json)) : Json :=
    match change.bind (·.field? key) with
    | some group => .obj (Json.mergeFields fields group.entries)
    | none => .obj fields
  .obj [("threading", changed "threading" s.threadingFields),
    ("listing", changed "listing" s.listingFields)]

end MailThread.Settings
