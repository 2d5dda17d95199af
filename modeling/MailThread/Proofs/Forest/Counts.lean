import MailThread.Proofs.Forest.Roots
import Mathlib.Data.Set.Card

namespace MailThread.Arena

variable {a b : Arena} {i : Index}

def held (a : Arena) : Set Index := { i | a.message? i ≠ none }

def hung (a : Arena) : Set Index := { i | a.parent? i ≠ none }

theorem mem_held_iff : i ∈ a.held ↔ i ∈ a.indices ∧ ¬ (a.message? i).isNone := by
  rw [Option.isNone_iff_eq_none]
  refine ⟨fun hi => ⟨?_, hi⟩, And.right⟩
  obtain ⟨m, hm⟩ := Option.ne_none_iff_exists'.1 hi
  exact mem_indices_of_message? hm

theorem mem_hung_iff : i ∈ a.hung ↔ i ∈ a.indices ∧ ¬ a.isParentless i := by
  refine ⟨fun hi => ?_, fun ⟨hi, hp⟩ hnone => hp ((isParentless_iff hi).2 hnone)⟩
  obtain ⟨p, hp⟩ := Option.ne_none_iff_exists'.1 hi
  have hmem := mem_indices_of_parent? hp
  exact ⟨hmem, fun hnone => hi ((isParentless_iff hmem).1 hnone)⟩

theorem finite_held (a : Arena) : a.held.Finite :=
  a.indices.finite_toSet.subset fun _ hi => (mem_held_iff.1 hi).1

theorem finite_hung (a : Arena) : a.hung.Finite :=
  a.indices.finite_toSet.subset fun _ hi => (mem_hung_iff.1 hi).1

theorem countP_add_ncard (p : Index → Bool) {A : Set Index}
    (h : ∀ i, i ∈ A ↔ i ∈ a.indices ∧ ¬ p i) : a.indices.countP p + A.ncard = a.size := by
  have hA : A = ((a.indices.filter fun i => !p i).toFinset : Set Index) := by
    ext i
    simp [h i]
  rw [hA, Set.ncard_coe_finset, List.toFinset_card_of_nodup (a.nodup_indices.filter _),
    ← List.countP_eq_length_filter, ← a.length_indices, a.indices.length_eq_countP_add_countP p]
  simp

theorem length_tops (a : Arena) :
    a.tops.length = a.indices.countP fun i => (a.parent? i).isNone := by
  rw [tops, ← List.countP_eq_length_filter]
  refine List.countP_congr fun i hi => ?_
  rw [isParentless_iff hi, Option.isNone_iff_eq_none]

theorem length_tops_add (a : Arena) : a.tops.length + a.hung.ncard = a.size := by
  rw [tops, ← List.countP_eq_length_filter]
  exact countP_add_ncard a.isParentless fun _ => mem_hung_iff

theorem countP_isPlaceholder (a : Arena) :
    a.containers.countP (·.isPlaceholder) = a.indices.countP fun i => (a.message? i).isNone := by
  have hstore : a.containers.toList = (List.range a.size).map fun n =>
      (a.get? (.slot n)).getD default :=
    List.ext_getElem (by simp [size]) fun n hn _ => by
      simp [get?, Index.lookup, Array.getElem?_eq_getElem (Array.length_toList ▸ hn)]
  rw [← Array.countP_toList, hstore, indices, List.countP_map, List.countP_map]
  refine List.countP_congr fun n hn => ?_
  obtain ⟨c, hc⟩ := mem_indices.1 (slot_mem_indices.2 (List.mem_range.1 hn))
  simp [Container.isPlaceholder, message?, hc]

theorem countP_isPlaceholder_add (a : Arena) :
    a.containers.countP (·.isPlaceholder) + a.held.ncard = a.size := by
  rw [countP_isPlaceholder]
  exact countP_add_ncard _ fun _ => mem_held_iff

end MailThread.Arena
