import MailThread.Text.Case

namespace MailThread.Text

variable {u c : UInt16} {n : Nat}

def Alike (u v : UInt16) : Prop := fold u = fold v

theorem CaseTable.upper_bounds :
    CaseTable.upper.all fun r => decide (r.last < 0x80 ∨
      (0x80 ≤ (r.first : Int) + r.shift ∧ (r.last : Int) + r.shift < 0x10000)) := by
  decide +kernel

theorem apply_upper_bounds (h : 0x80 ≤ n) (hn : n < 0x10000) :
    0x80 ≤ CaseRun.apply CaseTable.upper n ∧ CaseRun.apply CaseTable.upper n < 0x10000 := by
  unfold CaseRun.apply
  cases hr : CaseTable.upper.find? (·.contains n) with
  | none => exact ⟨h, hn⟩
  | some r =>
    have hin := Array.find?_some hr
    simp only [CaseRun.contains, Bool.and_eq_true, decide_eq_true_eq] at hin
    have hall := Array.all_eq_true_iff_forall_mem.1 CaseTable.upper_bounds
    have hbounds := of_decide_eq_true (hall r (Array.mem_of_find?_eq_some hr))
    simp only
    omega

theorem toNat_fold_of_le (h : 0x80 ≤ u.toNat) : 0x80 ≤ (fold u).toNat := by
  obtain ⟨hlow, hhigh⟩ := apply_upper_bounds h u.toNat_lt
  rw [fold, if_neg (Nat.not_lt.2 h), UInt16.toNat_ofNat', Nat.mod_eq_of_lt hhigh]
  exact hlow

theorem toNat_fold_of_lt (h : u.toNat < 0x80) :
    (fold u).toNat =
      if 0x61 ≤ u.toNat ∧ u.toNat ≤ 0x7A then u.toNat - 0x20 else u.toNat := by
  rw [fold, if_pos h]
  split
  · rw [UInt16.toNat_ofNat', Nat.mod_eq_of_lt (by omega)]
  · rfl

theorem alike_iff_eq (hc : c.toNat < 0x80) (hupper : ¬ (0x41 ≤ c.toNat ∧ c.toNat ≤ 0x5A))
    (hlower : ¬ (0x61 ≤ c.toNat ∧ c.toNat ≤ 0x7A)) : Alike c u ↔ u = c := by
  unfold Alike
  rw [← UInt16.toNat_inj, toNat_fold_of_lt hc, if_neg hlower, ← UInt16.toNat_inj]
  by_cases hu : u.toNat < 0x80
  · rw [toNat_fold_of_lt hu]
    split <;> omega
  · have hfold := toNat_fold_of_le (Nat.not_lt.1 hu)
    omega

end MailThread.Text
