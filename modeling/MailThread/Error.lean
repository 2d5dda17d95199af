import MailThread.Issue

namespace MailThread

/-- Names a kind of error. -/
structure ErrorCode where
  text : String
deriving DecidableEq, Repr, Inhabited

namespace ErrorCode

def missingField : ErrorCode := ⟨"VALID_001"⟩
def invalidFormat : ErrorCode := ⟨"VALID_002"⟩
def invalidRecords : ErrorCode := ⟨"VALID_003"⟩
def sourceMissing : ErrorCode := ⟨"INPUT_001"⟩
def sourceUnreadable : ErrorCode := ⟨"INPUT_002"⟩
def unknown : ErrorCode := ⟨"UNKNOWN"⟩

end ErrorCode

/-- An error, with what is known of its circumstances. -/
inductive ThreadError where
  /-- Data that does not have the form it should have. -/
  | validation (message : String) (issues : List Issue) (context : List (String × Json))
      (code : ErrorCode)
  /-- A source that could not be used. -/
  | input (message : String) (code : ErrorCode) (path : String) (context : List (String × Json))
      (retryable : Bool)
  /-- Any other failure, with the message it came with. -/
  | unknown (message : String) (cause : Option String)
deriving Repr, Inhabited

namespace ThreadError

/-- A field that is missing in the record at `position`, as far as that is known. -/
def fieldMissing (field : String) (position : Option Json := none) : ThreadError :=
  .validation ("Missing required field: " ++ field)
    [{ field, message := "Field is required" }]
    (position.map fun j => ("recordIndex", j)).toList
    .missingField

def badFormat (field expected : String) (value : Option Json) : ThreadError :=
  .validation ("Invalid format for field: " ++ field)
    [{ field, message := "Expected " ++ expected, value }]
    [] .invalidFormat

def invalidRecords (issues : List Issue) : ThreadError :=
  .validation ("Validation failed: " ++ toString issues.length ++ " issue(s)") issues []
    .invalidRecords

def sourceMissing (path : String) : ThreadError :=
  .input ("Envelope source not found: " ++ path) .sourceMissing path [] false

def sourceUnreadable (path : String) (cause : Option String) : ThreadError :=
  .input ("Envelope source could not be read: " ++ path) .sourceUnreadable path
    (cause.map fun m => ("cause", Json.str m)).toList true

def unexpected (message : String := "An unexpected error occurred") : ThreadError :=
  .unknown message none

def ofFailure (message : String) : ThreadError :=
  .unknown message (some message)

def name : ThreadError → String
  | validation .. => "ValidationError"
  | input .. => "InputError"
  | unknown .. => "UnknownError"

def message : ThreadError → String
  | validation m .. | input m .. | unknown m .. => m

def code : ThreadError → ErrorCode
  | validation _ _ _ c => c
  | input _ c .. => c
  | unknown .. => .unknown

def isRetryable : ThreadError → Bool
  | input _ _ _ _ r => r
  | _ => false

def issues? : ThreadError → Option (List Issue)
  | validation _ issues .. => some issues
  | _ => none

def context : ThreadError → List (String × Json)
  | validation _ issues context _ =>
    Json.putField context "issues" (.arr (issues.map Issue.json))
  | input _ _ path context _ => Json.putField context "filePath" (.str path)
  | unknown _ cause => (cause.map fun m => ("cause", Json.str m)).toList

def userText (e : ThreadError) : String :=
  "Error " ++ e.code.text ++ ": " ++ e.message

def fields (e : ThreadError) : List (String × Json) :=
  [("name", .str e.name), ("code", .str e.code.text), ("message", .str e.message),
    ("isRetryable", .bool e.isRetryable), ("context", .obj e.context)]

def recordKeys : List String :=
  ["code", "context", "isRetryable", "message", "name", "stack", "timestamp"]

end ThreadError

end MailThread
