import MailThread.Log.Path

namespace MailThread

/-- Why a path gives no text. -/
inductive ReadFailure where
  | missing
  | unreadable (reason : String)
deriving DecidableEq, Repr, Inhabited

/-- Paths, in parts, with the texts of files; a path without a text is a folder. The first entry of a
place tells what stands there. -/
structure Folder where
  entries : List (List String × Option String)
deriving Repr, Inhabited

namespace Folder

/-- Builds a folder of paths with texts; a path without a text is a folder. Of several paths of one
place the last one stands. -/
def ofPaths (ps : List (String × Option String)) : Folder :=
  ⟨ps.reverse.map fun (p, text) => (Path.resolve false (Path.parts p), text)⟩

/-- What stands at a place of a folder. -/
inductive Node where
  | file (text : String)
  | folder
  | nothing
deriving DecidableEq, Repr

def isAbove (place : List String) : Bool := place.all (· = "..")

def node (f : Folder) (place : List String) : Node :=
  match f.entries.lookup place with
  | some (some text) => .file text
  | some none => .folder
  | none =>
    if isAbove place ∨ f.entries.any (fun (p, _) => place.isPrefixOf p) then .folder else .nothing

def longestName : Nat := 255

/-- Goes from a place along the parts of a path. Only a folder has places below it. -/
def walk (f : Folder) : List String → List String → Except ReadFailure Node
  | place, [] => .ok (f.node place)
  | place, p :: ps =>
    match f.node place with
    | .nothing => .error .missing
    | .file _ => .error (.unreadable "not a folder")
    | .folder =>
      if p = "" ∨ p = "." then f.walk place ps
      else if p = ".." then
        f.walk (if isAbove place then place ++ [".."] else place.dropLast) ps
      else if longestName < p.utf8ByteSize then .error (.unreadable "name too long")
      else f.walk (place ++ [p]) ps

/-- The text of the file at a path. A path that starts at the root of all folders does not come to
this one. -/
def read (f : Folder) (path : String) : Except ReadFailure String :=
  if path.contains '\x00' then .error (.unreadable "no path")
  else if 4096 ≤ path.utf8ByteSize then .error (.unreadable "name too long")
  else
    let start := if path.startsWith "/" then ⟨[]⟩ else f
    match start.walk [] (Path.parts path) with
    | .error e => .error e
    | .ok (.file text) => .ok text
    | .ok .folder => .error (.unreadable "a folder")
    | .ok .nothing => .error .missing

end Folder

end MailThread
