import MailThread.Envelope

namespace MailThread.Mailbox

variable {entries : Array Entry} {kept read : Nat}

theorem drop_entries_eq (hread : read < entries.size) :
    entries.toList.drop read = entries[read] :: entries.toList.drop (read + 1) := by
  rw [List.drop_eq_getElem_cons (by rwa [Array.length_toList]), Array.getElem_toList]

/-- The loop leaves in front the entries kept before it, and behind them those that it reads and that
are no copies. Nothing that is still to be read is written over. -/
theorem take_compact (h : kept ≤ read) :
    (compact entries kept read).1.toList.take (compact entries kept read).2 =
      entries.toList.take kept ++ (entries.toList.drop read).filter fun e => !e.isCopy := by
  fun_induction compact entries kept read with
  | case1 entries kept read hread hcopy ih =>
    rw [ih (by omega), drop_entries_eq hread, List.filter_cons_of_neg]
    simpa using hcopy
  | case2 entries kept read hread hcopy ih =>
    have hset : (entries.setIfInBounds kept entries[read]).toList =
        entries.toList.set kept entries[read] := Array.toList_setIfInBounds
    have hfront : (entries.toList.set kept entries[read]).take (kept + 1) =
        entries.toList.take kept ++ [entries[read]] := by
      have hlen : kept < entries.toList.length := by
        rw [Array.length_toList]
        omega
      rw [List.take_add_one, List.take_set_of_le (Nat.le_refl kept), List.getElem?_set_self hlen]
      rfl
    rw [ih (by omega), hset, hfront, List.drop_set_of_lt (by omega), drop_entries_eq hread,
      List.filter_cons_of_pos, List.append_assoc]
    · rfl
    · simpa using hcopy
  | case3 entries kept read hread =>
    rw [List.drop_eq_nil_of_le (by rw [Array.length_toList]; omega), List.filter_nil,
      List.append_nil]

theorem compact_size (h : kept ≤ read) (hread : read ≤ entries.size) :
    (compact entries kept read).1.size = entries.size ∧
      (compact entries kept read).2 ≤ entries.size := by
  fun_induction compact entries kept read with
  | case1 entries kept read hlt hcopy ih => exact ih (by omega) hlt
  | case2 entries kept read hlt hcopy ih =>
    rw [Array.size_setIfInBounds] at ih
    exact ih (by omega) hlt
  | case3 entries kept read hlt => exact ⟨rfl, by omega⟩

theorem take_compact_zero (entries : Array Entry) :
    (compact entries 0 0).1.toList.take (compact entries 0 0).2 =
      entries.toList.filter fun e => !e.isCopy := by
  rw [take_compact (Nat.le_refl 0), List.take_zero, List.drop_zero, List.nil_append]

theorem withoutCopies_eq (m : Mailbox) :
    m.withoutCopies = ⟨m.entries.filter fun e => !e.isCopy⟩ := by
  have htake := take_compact_zero m.entries
  unfold withoutCopies
  rw [mk.injEq, ← Array.toList_inj, Array.toList_filter, ← htake, Array.take_eq_extract,
    Array.toList_extract, List.extract_eq_take_drop]
  rfl

theorem copyCount_eq (m : Mailbox) : m.copyCount = m.entries.countP (·.isCopy) := by
  have hlength := congrArg List.length (take_compact_zero m.entries)
  obtain ⟨hsize, hkept⟩ := compact_size (Nat.le_refl 0) (Nat.zero_le m.entries.size)
  have hcount := m.entries.toList.length_eq_countP_add_countP (·.isCopy)
  rw [List.length_take, Array.length_toList, hsize, Nat.min_eq_left hkept,
    ← List.countP_eq_length_filter] at hlength
  rw [Array.length_toList, Array.countP_toList] at hcount
  unfold copyCount size
  rw [hlength, hcount]
  simp

end MailThread.Mailbox
