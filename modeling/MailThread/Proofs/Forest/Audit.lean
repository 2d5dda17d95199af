import MailThread.Proofs.Forest.Coherence
import MailThread.Proofs.Forest.Layout

namespace MailThread

namespace Arena

variable {a : Arena} {es : Array Envelope} {i j p : Index}

theorem Sound.dateOf_le (h : a.Sound es) (hi : i ∈ a.indices) (hb : a.Below i p) :
    a.dateOf i ≤ a.dateOf p := by
  apply (h.latest i hi).mono (h.latest p (h.rooted.mem_of_below hi hb))
  rintro d ⟨j, k, e, hj, hk, rfl⟩
  exact ⟨j, k, e, hj.trans hb, hk, rfl⟩

theorem isWhole_of_mem (h : i ∈ a.indices) : i.IsWhole := by
  obtain ⟨n, _, rfl⟩ := List.mem_map.1 h
  exact ⟨n, by simp [Index.ofRat]⟩

theorem Linked.lists_iff (h : a.Linked) : a.Lists i j ↔ a.parent? j = some i := by
  constructor
  · rintro ⟨c, l, hc, hl, hj⟩
    rw [hl.unique (LinkedAs.chain h hc)] at hj
    exact h.mem_kids.1 hj
  · intro hj
    obtain ⟨c, hc⟩ := mem_indices.1 (h.rooted.parent_mem hj)
    exact ⟨c, a.kids i, hc, LinkedAs.chain h hc, h.mem_kids.2 hj⟩

end Arena

namespace Forest

open Arena

variable {f : Forest}

namespace Sound

variable (h : f.Sound)
include h

theorem whole : f.Whole where
  ids := fun e he => isWhole_of_mem (h.arena.ready.named.inside e he)
  threads := fun e he t ht => by
    obtain ⟨k, hk⟩ := Array.mem_iff_getElem?.1 he
    exact isWhole_of_mem (mem_indices_of_message? ((h.arena.pointed hk).1 ht))

theorem coherent : f.Coherent where
  ids_inside := h.arena.ready.named.inside
  ids_distinct := h.arena.ready.named.slots
  lists_end := fun i c hc => ⟨_, LinkedAs.chain h.arena.linked hc,
    (LinkedAs.chain h.arena.linked hc).nodup⟩
  child_parent := fun i j => h.arena.linked.lists_iff.1
  one_list := fun i i' j hi hi' => Option.some.inj
    ((h.arena.linked.lists_iff.1 hi).symm.trans (h.arena.linked.lists_iff.1 hi'))
  parent_lists := fun i p => h.arena.linked.lists_iff.2
  ways_end := h.arena.rooted
  awaited := fun i c hc hm hnone => by
    rw [h.arena.linked.firstChild_eq hc, List.head?_eq_none_iff] at hnone
    exact h.arena.awaited i (mem_indices_of_get? hc) ((message?_of_get? hc).trans hm) hnone
  dates := fun i p hp => h.arena.dateOf_le (mem_indices_of_parent? hp) (.of_parent hp)
  messages_distinct := fun i j m hi hj => by
    obtain ⟨k, rfl, _⟩ := h.arena.bound hi
    exact h.arena.holder_unique hi hj
  messages_bound := fun i m hm => by
    obtain ⟨k, e, rfl, hk, he⟩ := h.arena.holds_of_message? hm
    exact ⟨k, e, rfl, he, (h.arena.pointed he).2 hk⟩
  threads_bound := fun k e t he ht =>
    ⟨mem_indices_of_message? ((h.arena.pointed he).1 ht), (h.arena.pointed he).1 ht⟩

theorem audit_eq_nil : f.audit = .ok [] := by
  rw [audit_eq_ok h.whole, (flaws_eq_nil_iff h.whole.ids).2 h.coherent]

end Sound

end Forest

end MailThread
