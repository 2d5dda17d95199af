import MailThread.Listing.Basic
import MailThread.Proofs.Number.Exact
import MailThread.Proofs.Outcome
import Mathlib.Algebra.Order.BigOperators.Group.List

namespace MailThread

namespace Text

theorem length_append (s t : Text) : (s ++ t).length = s.length + t.length := List.length_append

theorem length_pointsOf_le (us : List UInt16) : (pointsOf us).length ≤ us.length := by
  fun_induction pointsOf us with
  | case1 => simp
  | case2 => simp
  | case3 u v us h ih =>
    simp only [List.length_cons]
    omega
  | case4 u v us h ih =>
    simp only [List.length_cons] at ih ⊢
    omega

end Text

theorem Subject.cut_eq_self {t : Text} {width : Rat} (h : (t.length : Rat) ≤ width) :
    cut t width = t := by
  apply if_pos
  exact (Nat.cast_le.2 (Text.length_pointsOf_le t.units)).trans h

namespace Listing

theorem length_dateMark_pos (label : String) : 0 < (dateMark label).length := by
  have hend : (Text.ofString "]").length = 1 := by decide
  rw [dateMark, Text.length_append, hend]
  omega

theorem pageWidth_eq (widths : List Nat) :
    pageWidth widths = widths.sum + (widths.length - 1) + 1 := rfl

theorem length_intercalate (lines : List (List UInt16)) :
    ([lineEnd].intercalate lines).length = (lines.map List.length).sum + (lines.length - 1) := by
  induction lines with
  | nil => rfl
  | cons line lines ih =>
    cases lines with
    | nil => simp
    | cons next lines =>
      rw [List.intercalate_cons_cons]
      simp only [List.length_append, ih, List.map_cons, List.sum_cons, List.length_cons]
      simp
      omega

theorem length_page (lines : List Text) :
    (page lines).length = pageWidth (lines.map Text.length) := by
  change ([lineEnd].intercalate (lines.map Text.units) ++ [lineEnd]).length = _
  rw [List.length_append, length_intercalate, List.map_map, pageWidth_eq, List.length_map,
    List.length_map]
  rfl

theorem length_le_page {line : Text} {lines : List Text} (h : line ∈ lines) :
    line.length ≤ (page lines).length := by
  have hsum := List.single_le_sum (fun _ _ => Nat.zero_le _) _ (List.mem_map_of_mem (f := Text.length) h)
  rw [length_page, pageWidth_eq]
  omega

end Listing

theorem ConversationLine.length_text (row : ConversationLine) : row.text.length = row.width :=
  Text.length_append _ _

namespace MessageLine

variable {row : MessageLine} {rows : List MessageLine} {n : Nat}

theorem length_text (row : MessageLine) : row.text.length = row.width := by
  rw [text, Text.length_append]
  change (List.replicate _ (0x20 : UInt16)).length + _ = _
  rw [List.length_replicate]
  rfl

theorem text_eq (h : row.indentation = n) :
    row.text = Text.mk (List.replicate (2 * n) 0x20) ++ row.body := by
  rw [text, h, Binary64.truncate_natCast, Int.toNat_natCast]

theorem text?_eq_some (h : row.indentation = n) (hfit : row.text.length ≤ Text.widest) :
    row.text? = some row.text := by
  rw [length_text] at hfit
  apply if_neg
  rw [h, Binary64.truncate_natCast]
  omega

theorem text?_eq_none (hlong : Text.widest < row.text.length) : row.text? = none := by
  rw [length_text] at hlong
  exact if_pos (.inr hlong)

theorem texts?_eq_some (h : ∀ row ∈ rows, ∃ n : Nat, row.indentation = n)
    (hfit : ∀ row ∈ rows, row.text.length ≤ Text.widest) : texts? rows = some (rows.map text) := by
  apply mapM_eq_some_iff.2
  intro row hrow
  obtain ⟨n, hn⟩ := h row hrow
  exact text?_eq_some hn (hfit row hrow)

theorem texts?_eq_none (hrow : row ∈ rows) (hlong : Text.widest < row.text.length) :
    texts? rows = none :=
  mapM_eq_none hrow (text?_eq_none hlong)

theorem length_subject_lt (row : MessageLine) : row.subject.length < row.text.length := by
  have hmark := Listing.length_dateMark_pos row.dateLabel
  rw [length_text, width, body, Text.length_append]
  split
  next h =>
    have hempty : row.subject.length = 0 := congrArg Text.length h
    omega
  next => omega

end MessageLine

end MailThread
