import MailThread.Listing.Order
import Mathlib.Algebra.Order.Ring.Rat

namespace MailThread

namespace Text

theorem isLE_compareUnits {us vs : List UInt16} : (compareUnits us vs).isLE ↔ us ≤ vs := by
  fun_induction compareUnits us vs with
  | case1 => simp
  | case2 v vs => simp
  | case3 u us => simp
  | case4 u us v vs ih =>
    rw [List.cons_le_cons_iff, ← ih, UInt16.lt_iff_toNat_lt, ← UInt16.toNat_inj]
    rcases Nat.lt_trichotomy u.toNat v.toNat with h | h | h
    · simp [Nat.compare_eq_lt.2 h, h]
    · simp [h]
    · have hle : ¬ u.toNat < v.toNat := by omega
      have hne : u.toNat ≠ v.toNat := by omega
      simp [Nat.compare_eq_gt.2 h, hle, hne]

theorem isLE_compare {s t : Text} : (s.compare t).isLE ↔ s.units ≤ t.units := isLE_compareUnits

end Text

/-- `l'` has the elements of `l` in the order of `le`, and elements that are level with each other
keep the order that they have in `l`. -/
structure StableSort {α : Type} (le : α → α → Bool) (l l' : List α) : Prop where
  perm : l'.Perm l
  sorted : l'.Pairwise fun a b => le a b
  stable : ∀ a b, le a b → [a, b].Sublist l → [a, b].Sublist l'

theorem stableSort_mergeSort {α : Type} {le : α → α → Bool}
    (trans : ∀ a b c, le a b → le b c → le a c) (total : ∀ a b, le a b ∨ le b a) (l : List α) :
    StableSort le l (l.mergeSort le) := by
  have total' : ∀ a b, (le a b || le b a) = true := fun a b => Bool.or_eq_true_iff.2 (total a b)
  exact
    { perm := List.mergeSort_perm l le
      sorted := List.pairwise_mergeSort trans total' l
      stable := fun _ _ hab hsub => List.pair_sublist_mergeSort trans total' hab hsub }

theorem StableSort.congr {α : Type} {le le' : α → α → Bool} {l l' : List α} (h : StableSort le l l')
    (he : ∀ a ∈ l, ∀ b ∈ l, le' a b = le a b) : StableSort le' l l' where
  perm := h.perm
  sorted := by
    apply h.sorted.imp_of_mem
    intro a b ha hb hab
    rwa [he a (h.perm.mem_iff.1 ha) b (h.perm.mem_iff.1 hb)]
  stable := fun a b hab hsub => by
    have ha := hsub.subset List.mem_cons_self
    have hb := hsub.subset (List.mem_cons_of_mem a List.mem_cons_self)
    rw [he a ha b hb] at hab
    exact h.stable a b hab hsub

theorem stableSort_descending {α : Type} (value : α → Rat) (l : List α) :
    StableSort (fun a b => decide (value b ≤ value a)) l
      (l.mergeSort fun a b => value b ≤ value a) := by
  refine stableSort_mergeSort (fun a b c => ?_) (fun a b => ?_) l
  · simp only [decide_eq_true_eq]
    exact fun hab hbc => hbc.trans hab
  · simp only [decide_eq_true_eq]
    exact le_total (value b) (value a)

namespace RowOrder

variable {α : Type} {a b c : RowKey}

theorem fieldLe_subject (a b : RowKey) :
    fieldLe .subject a b = decide (a.subject.lower.units ≤ b.subject.lower.units) :=
  Bool.eq_iff_iff.2 (by rw [fieldLe, Text.isLE_compare, decide_eq_true_eq])

theorem fieldLe_trans {f : RowField} (hab : fieldLe f a b) (hbc : fieldLe f b c) :
    fieldLe f a c := by
  cases f with
  | date =>
    simp only [fieldLe, decide_eq_true_eq] at hab hbc ⊢
    exact hab.trans hbc
  | subject =>
    simp only [fieldLe_subject, decide_eq_true_eq] at hab hbc ⊢
    exact List.le_trans hab hbc

theorem fieldLe_total (f : RowField) (a b : RowKey) : fieldLe f a b ∨ fieldLe f b a := by
  cases f with
  | date =>
    simp only [fieldLe, decide_eq_true_eq]
    exact le_total a.date b.date
  | subject =>
    simp only [fieldLe_subject, decide_eq_true_eq]
    exact List.le_total _ _

theorem le_trans (o : RowOrder) (hab : o.le a b) (hbc : o.le b c) : o.le a c := by
  obtain ⟨field, direction⟩ := o
  cases direction with
  | ascending => exact fieldLe_trans (f := field) hab hbc
  | descending => exact fieldLe_trans (f := field) hbc hab

theorem le_total (o : RowOrder) (a b : RowKey) : o.le a b ∨ o.le b a := by
  obtain ⟨field, direction⟩ := o
  cases direction with
  | ascending => exact fieldLe_total field a b
  | descending => exact fieldLe_total field b a

/-- `l'` has the elements of `l` in the order that is asked for: by their dates or by their subjects in
lower case, which are compared unit by unit. Without an order they stay as they are. -/
structure Sorts (o : Option RowOrder) (date : α → Rat) (subject : α → Text) (l l' : List α) :
    Prop where
  unsorted : o = none → l' = l
  dateAscending : o = some ⟨.date, .ascending⟩ →
    StableSort (fun a b => date a ≤ date b) l l'
  dateDescending : o = some ⟨.date, .descending⟩ →
    StableSort (fun a b => date b ≤ date a) l l'
  subjectAscending : o = some ⟨.subject, .ascending⟩ →
    StableSort (fun a b => (subject a).lower.units ≤ (subject b).lower.units) l l'
  subjectDescending : o = some ⟨.subject, .descending⟩ →
    StableSort (fun a b => (subject b).lower.units ≤ (subject a).lower.units) l l'

variable {date date' : α → Rat} {subject subject' : α → Text} {l l' : List α}

theorem sorts_none (date : α → Rat) (subject : α → Text) (l : List α) :
    Sorts none date subject l l := by
  constructor <;> simp

theorem sorts_mergeSort (o : RowOrder) (key : α → RowKey) (l : List α) :
    Sorts (some o) (fun a => (key a).date) (fun a => (key a).subject) l
      (l.mergeSort fun a b => o.le (key a) (key b)) := by
  have trans : ∀ a b c : α, o.le (key a) (key b) → o.le (key b) (key c) → o.le (key a) (key c) :=
    fun _ _ _ hab hbc => o.le_trans hab hbc
  have total : ∀ a b : α, o.le (key a) (key b) ∨ o.le (key b) (key a) :=
    fun a b => o.le_total (key a) (key b)
  have hsort := stableSort_mergeSort trans total l
  constructor <;> intro ho <;> cases ho
  · exact hsort
  · exact hsort
  · simpa only [le, fieldLe_subject] using hsort
  · simpa only [le, fieldLe_subject] using hsort

theorem Sorts.perm {o : Option RowOrder} (h : Sorts o date subject l l') : l'.Perm l :=
  match o with
  | none => .of_eq (h.unsorted rfl)
  | some ⟨.date, .ascending⟩ => (h.dateAscending rfl).perm
  | some ⟨.date, .descending⟩ => (h.dateDescending rfl).perm
  | some ⟨.subject, .ascending⟩ => (h.subjectAscending rfl).perm
  | some ⟨.subject, .descending⟩ => (h.subjectDescending rfl).perm

theorem Sorts.congr {o : Option RowOrder} (h : Sorts o date subject l l')
    (hs : ∀ a ∈ l, subject' a = subject a) : Sorts o date subject' l l' where
  unsorted := h.unsorted
  dateAscending := h.dateAscending
  dateDescending := h.dateDescending
  subjectAscending ho := (h.subjectAscending ho).congr fun a ha b hb => by rw [hs a ha, hs b hb]
  subjectDescending ho := (h.subjectDescending ho).congr fun a ha b hb => by rw [hs a ha, hs b hb]

end RowOrder

end MailThread
