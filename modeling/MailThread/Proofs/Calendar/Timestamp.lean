import MailThread.Proofs.Calendar.Gregorian
import MailThread.Proofs.Number.Exact
import Mathlib

namespace MailThread

namespace Moment

variable {m n : Moment}

def twoDigits (k : Nat) : List Char := [Nat.digitChar (k / 10), Nat.digitChar (k % 10)]

/-- What stands behind the year of a moment. -/
def behindYear (m : Moment) : List Char :=
  ('-' :: twoDigits m.month) ++ ('-' :: twoDigits m.day) ++ (' ' :: twoDigits m.hour) ++
    (':' :: twoDigits m.minute) ++ (':' :: twoDigits m.second)

theorem twoDigits_injective {k l : Nat} (hk : k < 100) (hl : l < 100)
    (h : twoDigits k = twoDigits l) : k = l := by
  simp only [twoDigits, List.cons.injEq, and_true] at h
  have htens := congrArg Char.toNat h.1
  have hones := congrArg Char.toNat h.2
  rw [Nat.toNat_digitChar_of_lt_ten (by omega), Nat.toNat_digitChar_of_lt_ten (by omega)] at htens
  rw [Nat.toNat_digitChar_of_lt_ten (by omega), Nat.toNat_digitChar_of_lt_ten (by omega)] at hones
  omega

theorem toList_pad {k : Nat} (hk : k < 100) : (pad k).toList = twoDigits k := by
  unfold pad twoDigits
  split
  next hlt =>
    rw [Nat.toString_eq_repr, Nat.repr_of_lt hlt, Nat.div_eq_of_lt hlt, Nat.mod_eq_of_lt hlt]
    simp
  next hge =>
    rw [Nat.toString_eq_repr, Nat.repr_eq_repr_append_repr (by omega),
      Nat.repr_of_lt (by omega : k / 10 < 10), Nat.repr_of_lt (by omega : k % 10 < 10)]
    simp

namespace Valid

variable (h : m.Valid)
include h

theorem lt_hundred :
    m.month < 100 ∧ m.day < 100 ∧ m.hour < 100 ∧ m.minute < 100 ∧ m.second < 100 := by
  have hmonth := h.month.2
  have hday := h.day.2
  have hlength : Calendar.monthLength m.year m.month ≤ 31 := by
    unfold Calendar.monthLength
    split_ifs <;> omega
  have hhour := h.hour
  have hminute := h.minute
  have hsecond := h.second
  omega

theorem toList_text : m.text.toList = (toString m.year).toList ++ m.behindYear := by
  obtain ⟨hmonth, hday, hhour, hminute, hsecond⟩ := h.lt_hundred
  simp only [text, String.toList_append, toList_pad hmonth, toList_pad hday, toList_pad hhour,
    toList_pad hminute, toList_pad hsecond]
  simp [behindYear]

theorem eq_of_text (h' : n.Valid) (htext : m.text = n.text) : m = n := by
  obtain ⟨hmonth, hday, hhour, hminute, hsecond⟩ := h.lt_hundred
  obtain ⟨hmonth', hday', hhour', hminute', hsecond'⟩ := h'.lt_hundred
  have hlist := congrArg String.toList htext
  rw [h.toList_text, h'.toList_text] at hlist
  obtain ⟨hyears, hbehind⟩ := List.append_inj' hlist rfl
  obtain ⟨hminutes, hseconds⟩ := List.append_inj' hbehind rfl
  obtain ⟨hhours, hminutes⟩ := List.append_inj' hminutes rfl
  obtain ⟨hdays, hhours⟩ := List.append_inj' hhours rfl
  obtain ⟨hmonths, hdays⟩ := List.append_inj' hdays rfl
  have heyear : m.year = n.year := Int.repr_injective (String.toList_inj.1 hyears)
  have hemonth := twoDigits_injective hmonth hmonth' (List.cons.inj hmonths).2
  have heday := twoDigits_injective hday hday' (List.cons.inj hdays).2
  have hehour := twoDigits_injective hhour hhour' (List.cons.inj hhours).2
  have heminute := twoDigits_injective hminute hminute' (List.cons.inj hminutes).2
  have hesecond := twoDigits_injective hsecond hsecond' (List.cons.inj hseconds).2
  cases m
  cases n
  rw [Moment.mk.injEq]
  exact ⟨heyear, hemonth, heday, hehour, heminute, hesecond⟩

end Valid

end Moment

theorem timestamp_eq {date : Int} (h : |date| ≤ 8640000000000) :
    timestamp date = (Moment.ofSeconds date).text := by
  obtain ⟨hlow, hhigh⟩ := abs_le.1 h
  have hmillis : Binary64.mul date 1000 = ((date * 1000 : Int) : Rat) := by
    have hexact := Binary64.round_whole (n := date * 1000) (by omega)
    push_cast at hexact ⊢
    exact hexact
  have hreach : -Calendar.reach ≤ ((date * 1000 : Int) : Rat) ∧
      ((date * 1000 : Int) : Rat) ≤ Calendar.reach := by
    unfold Calendar.reach
    constructor
    · exact_mod_cast (by omega : (-8640000000000000 : Int) ≤ date * 1000)
    · exact_mod_cast (by omega : date * 1000 ≤ 8640000000000000)
  unfold timestamp Moment.ofDate?
  simp only [hmillis, if_pos hreach, Binary64.truncate_intCast, Moment.ofMillis]
  rw [Int.mul_fdiv_cancel _ (by decide)]

/-- A whole date within 100 million days of 1970 is written as year, month, day, hour, minute and
second of a date of the Gregorian calendar, all but the year in two digits. The date is the number of
seconds before that moment, and no other date is written alike. -/
theorem timestamp_faithful {date : Int} (h : |date| ≤ 8640000000000) :
    ∃ m : Moment, m.Valid ∧ m.seconds = date ∧
      (timestamp date).toList = (toString m.year).toList ++ m.behindYear ∧
      ∀ other : Int, |other| ≤ 8640000000000 → timestamp other = timestamp date → other = date := by
  have hvalid := Moment.valid_ofSeconds date
  refine ⟨Moment.ofSeconds date, hvalid, Moment.seconds_ofSeconds date, ?_, ?_⟩
  · rw [timestamp_eq h, hvalid.toList_text]
  · intro other ho htext
    rw [timestamp_eq h, timestamp_eq ho] at htext
    have hsame := (Moment.valid_ofSeconds other).eq_of_text hvalid htext
    rw [← Moment.seconds_ofSeconds other, hsame, Moment.seconds_ofSeconds]

/-- The last second of the leap day of the year 0. -/
theorem timestamp_faithful_leapDay :
    |(-62162035201 : Int)| ≤ 8640000000000 ∧
      timestamp ((-62162035201 : Int) : Rat) = "0-02-29 23:59:59" ∧
      ∃ m : Moment, m.Valid ∧ m.seconds = -62162035201 ∧
        "0-02-29 23:59:59".toList = (toString m.year).toList ++ m.behindYear ∧
        ∀ other : Int, |other| ≤ 8640000000000 → timestamp other = "0-02-29 23:59:59" →
          other = -62162035201 := by
  have hdate : |(-62162035201 : Int)| ≤ 8640000000000 := by decide
  have htext : timestamp ((-62162035201 : Int) : Rat) = "0-02-29 23:59:59" := by decide +kernel
  have hfaithful := timestamp_faithful hdate
  rw [htext] at hfaithful
  exact ⟨hdate, htext, hfaithful⟩

end MailThread
