import MailThread.Text.Basic

namespace MailThread.Text

def isBlank (n : Nat) : Bool :=
  (0x09 ≤ n && n ≤ 0x0D) || n == 0x20 || n == 0xA0 || n == 0x1680
    || (0x2000 ≤ n && n ≤ 0x200A) || n == 0x2028 || n == 0x2029 || n == 0x202F || n == 0x205F
    || n == 0x3000 || n == 0xFEFF

def isLineEnd (n : Nat) : Bool :=
  n == 0x0A || n == 0x0D || n == 0x2028 || n == 0x2029

variable {α : Type}

def strip (p : α → Bool) (xs : List α) : List α :=
  ((xs.dropWhile p).reverse.dropWhile p).reverse

/-- A text without the blanks at its two ends. -/
def trim (t : Text) : Text := ⟨strip (fun u => isBlank u.toNat) t.units⟩

/-- The parts of a list between the separators `sep`; one more than there are separators. -/
def pieces [DecidableEq α] (sep : α) : List α → List (List α)
  | [] => [[]]
  | x :: xs =>
    if x = sep then [] :: pieces sep xs
    else match pieces sep xs with
      | [] => [[x]]
      | p :: ps => (x :: p) :: ps

end MailThread.Text
