import MailThread.Forest.Roots
import MailThread.Proofs.Arena.Date
import MailThread.Proofs.Forest.Outline
import MailThread.Proofs.Listing.Order

namespace MailThread.Arena

variable {a : Arena} {i j k r : Index}

/-- What stands for the tree of the parentless container `i`. -/
def standIn (a : Arena) (i : Index) : Index :=
  match a.message? i, a.kids i with
  | none, [k] => k
  | _, _ => i

/-- The containers without a parent. -/
def tops (a : Arena) : List Index := a.indices.filter a.isParentless

theorem isParentless_iff (hi : i ∈ a.indices) : a.isParentless i ↔ a.parent? i = none := by
  obtain ⟨c, hc⟩ := mem_indices.1 hi
  simp [isParentless, parent?, hc]

theorem mem_tops : i ∈ a.tops ↔ i ∈ a.indices ∧ a.parent? i = none := by
  unfold tops
  rw [List.mem_filter]
  exact and_congr_right isParentless_iff

theorem Rooted.exists_mem_tops (h : a.Rooted) (hi : i ∈ a.indices) :
    ∃ t ∈ a.tops, a.Below i t := by
  obtain ⟨t, hit, ht⟩ := h.exists_top hi
  exact ⟨t, mem_tops.2 ⟨h.mem_of_below hi hit, ht⟩, hit⟩

theorem nodup_tops (a : Arena) : a.tops.Nodup := a.nodup_indices.filter _

theorem standIn_cases (a : Arena) (i : Index) :
    a.standIn i = i ∨ (a.message? i = none ∧ a.kids i = [a.standIn i]) := by
  unfold standIn
  split
  next hm hk => exact .inr ⟨hm, hk⟩
  next => exact .inl rfl

def Replaced (a : Arena) (i : Index) : Prop :=
  a.parent? i = none ∧ a.message? i = none ∧ ∃ k, a.kids i = [k]

theorem Replaced.kids_eq (hi : a.Replaced i) : a.kids i = [a.standIn i] := by
  obtain ⟨_, hm, k, hk⟩ := hi
  rw [standIn, hm, hk]

namespace Linked

variable (h : a.Linked)
include h

theorem representative_eq (hi : i ∈ a.indices) : a.representative i = .ok (a.standIn i) := by
  obtain ⟨c, hc⟩ := mem_indices.1 hi
  unfold representative standIn
  rw [get_of_get? hc, ok_bind, message?_of_get? hc]
  have hchain := LinkedAs.chain h hc
  cases hm : c.message with
  | some m => simp; rfl
  | none =>
    -- none, one or several children
    generalize hs : c.firstChild = start at hchain
    generalize a.kids i = l at hchain
    cases hchain with
    | stop => rfl
    | @step k d l hd htail =>
      simp only [get_of_get? hd, ok_bind]
      generalize hn : d.nextSibling = next at htail
      cases htail <;> rfl

theorem roots_eq :
    a.roots = .ok ((a.tops.map a.standIn).mergeSort fun i j => a.dateOf j ≤ a.dateOf i) := by
  have hmap : a.tops.mapM a.representative = .ok (a.tops.map a.standIn) :=
    mapM_eq_ok fun i hi => h.representative_eq (mem_tops.1 hi).1
  unfold roots
  rw [show a.indices.filter a.isParentless = a.tops from rfl, hmap, ok_bind]
  rfl

theorem standIn_mem (hi : i ∈ a.indices) : a.standIn i ∈ a.indices := by
  rcases a.standIn_cases i with hs | ⟨_, hs⟩
  · rwa [hs]
  · exact h.kids_subset i (hs ▸ List.mem_singleton_self _)

theorem standIn_below : a.Below (a.standIn i) i := by
  rcases a.standIn_cases i with hs | ⟨_, hs⟩
  · rw [hs]
    exact .refl a i
  · exact .of_parent (h.mem_kids.1 (hs ▸ List.mem_singleton_self _))

theorem top_eq_of_below {t t' : Index} (ht : t ∈ a.tops) (ht' : t' ∈ a.tops)
    (hi : a.Below i (a.standIn t)) (hi' : a.Below i (a.standIn t')) : t = t' :=
  (hi.trans h.standIn_below).top_unique (hi'.trans h.standIn_below) (mem_tops.1 ht).2
    (mem_tops.1 ht').2

theorem standIn_injOn {t t' : Index} (ht : t ∈ a.tops) (ht' : t' ∈ a.tops)
    (hs : a.standIn t = a.standIn t') : t = t' :=
  h.top_eq_of_below ht ht' (.refl a _) (hs ▸ .refl a _)

theorem below_standIn {t : Index} (ht : t ∈ a.tops) (hit : a.Below i t) (hi : ¬ a.Replaced i) :
    a.Below i (a.standIn t) := by
  rcases a.standIn_cases t with hs | ⟨hm, hk⟩
  · rwa [hs]
  · rcases h.below_iff_kids.1 hit with rfl | ⟨k, hkt, hik⟩
    · exact absurd ⟨(mem_tops.1 ht).2, hm, _, hk⟩ hi
    · rw [hk, List.mem_singleton] at hkt
      rwa [← hkt]

theorem not_below_standIn (hi : a.Replaced i) (t : Index) : ¬ a.Below i (a.standIn t) := by
  intro hit
  have hself : i = a.standIn t := hit.eq_of_parentless hi.1
  have hti : i = t := (hit.trans h.standIn_below).eq_of_parentless hi.1
  have hparent := h.mem_kids.1 (hi.kids_eq ▸ List.mem_singleton_self (a.standIn i))
  rw [← hti] at hself
  rw [← hself, hi.1] at hparent
  cases hparent

end Linked

theorem pairwise_roots (l : List Index) :
    (l.mergeSort fun i j => a.dateOf j ≤ a.dateOf i).Pairwise fun i j => a.dateOf j ≤ a.dateOf i :=
  (stableSort_descending a.dateOf l).sorted.imp of_decide_eq_true

end MailThread.Arena
