import MailThread.Text.Pattern

namespace MailThread.Text.Glob

def star : UInt16 := 0x2A

/-- The pattern of a glob: its pieces, escaped, with any units between them, from the start of the text
to its end. -/
def pattern (term : List UInt16) : List UInt16 :=
  Pattern.startMark :: [Pattern.anyMark, Pattern.repeatMark].intercalate
    ((pieces star term).map Pattern.escape) ++ [Pattern.endMark]

/-- Whether the glob `term` describes all of `us`. -/
def accepts (term us : List UInt16) : Bool :=
  match Pattern.parse? (pattern term) with
  | some is => Pattern.found is us
  | none => false

def occursIn (t : List UInt16) : List UInt16 → Bool
  | [] => t.isEmpty
  | u :: us => t.isPrefixOf (u :: us) || occursIn t us

end MailThread.Text.Glob
