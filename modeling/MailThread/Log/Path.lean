namespace MailThread.Path

def parts (path : String) : List String := path.splitOn "/"

/-- Leaves out empty parts and `.`, and lets `..` take back the part before it. Above its start a
relative path keeps `..`, and an absolute one drops it. -/
def resolve (absolute : Bool) (ps : List String) : List String :=
  (ps.foldl step []).reverse
where
  step (done : List String) (p : String) : List String :=
    if p = "" ∨ p = "." then done
    else if p = ".." then
      match done with
      | [] => if absolute then [] else [".."]
      | d :: ds => if d = ".." then ".." :: d :: ds else ds
    else p :: done

def normalize (path : String) : String :=
  let absolute := path.startsWith "/"
  let body := "/".intercalate (resolve absolute (parts path))
  let closed := path.endsWith "/"
  if body = "" then
    if absolute then "/" else if closed then "./" else "."
  else (if absolute then "/" else "") ++ body ++ (if closed then "/" else "")

/-- The path of the file `name` in the folder `dir`; an empty `dir` is the current one. -/
def join (dir name : String) : String :=
  normalize (if dir = "" then name else dir ++ "/" ++ name)

end MailThread.Path
