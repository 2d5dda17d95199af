import MailThread.Proofs.Arena.Sound
import MailThread.Proofs.Forest.Layout

namespace MailThread.Arena

variable {a b d : Arena} {es : Array Envelope} {i : Index} {id : Text}

/-- The arena `b` has all that `a` has, in the same places. -/
structure GrowsInto (a b : Arena) : Prop where
  indices : a.indices ⊆ b.indices
  find? : ∀ {x i}, a.find? x = some i → b.find? x = some i
  message? : ∀ {i m}, a.message? i = some m → b.message? i = some m
  parent? : ∀ {i p}, a.parent? i = some p → b.parent? i = some p
  children : ∀ i ∈ a.indices, ∃ ks ls, a.children i = .ok ks ∧ b.children i = .ok ls ∧ ks <+: ls
  dateOf : ∀ i ∈ a.indices, a.dateOf i ≤ b.dateOf i

namespace GrowsInto

theorem refl (h : a.Linked) : a.GrowsInto a where
  indices := List.Subset.refl _
  find? := id
  message? := id
  parent? := id
  children := fun i hi => ⟨a.kids i, a.kids i, h.children_eq hi, h.children_eq hi, List.prefix_rfl⟩
  dateOf := fun _ _ => le_rfl

theorem trans (h : a.GrowsInto b) (h' : b.GrowsInto d) : a.GrowsInto d where
  indices := fun _ hi => h'.indices (h.indices hi)
  find? := fun hx => h'.find? (h.find? hx)
  message? := fun hm => h'.message? (h.message? hm)
  parent? := fun hp => h'.parent? (h.parent? hp)
  children := fun i hi => by
    obtain ⟨ks, ls, hks, hls, hprefix⟩ := h.children i hi
    obtain ⟨ls', more, hls', hmore, hprefix'⟩ := h'.children i (h.indices hi)
    cases hls.symm.trans hls'
    exact ⟨ks, more, hks, hmore, hprefix.trans hprefix'⟩
  dateOf := fun i hi => (h.dateOf i hi).trans (h'.dateOf i (h.indices hi))

end GrowsInto

theorem Redrawn.grows (h : a.Redrawn b) (ha : a.Linked) : a.GrowsInto b where
  indices := fun _ hi => h.mem_indices.2 hi
  find? := (h.find?_eq _).trans
  message? := (h.message?_eq _).trans
  parent? := (h.sameLinks.parent?_eq _).trans
  children := fun i hi => by
    refine ⟨a.kids i, b.kids i, ha.children_eq hi,
      (h.sameLinks.linked ha).children_eq (h.mem_indices.2 hi), ?_⟩
    rw [h.sameLinks.kids_eq ha]
  dateOf := fun i _ => (h.dateOf_eq i).ge

namespace Admits

variable {m : Index} {date : Rat} {parentId : Option Text} {above : Option Index}

theorem dateOf_le (hs : a.Admits b id m date parentId i above) (h : a.Sound es)
    (hi : a.message? i = none) {j : Index} (hj : j ∈ a.indices) : a.dateOf j ≤ b.dateOf j := by
  by_cases hji : j = i
  · subst hji
    rw [hs.own, if_neg (h.awaited j hj hi)]
    exact le_max_left _ _
  by_cases hp : ∃ p, above = some p ∧ a.Below p j
  · obtain ⟨p, hp, hpj⟩ := hp
    rw [hs.raised p j hp hpj hj]
    exact le_max_left _ _
  · rw [hs.kept j hj hji fun p hpa hpj => hp ⟨p, hpa, hpj⟩]

theorem kids_prefix (hs : a.Admits b id m date parentId i above) (j : Index) :
    a.kids j <+: b.kids j := by
  rw [hs.kids]
  split
  next => exact List.prefix_append _ _
  next => exact List.prefix_rfl

theorem grows (hs : a.Admits b id m date parentId i above) (h : a.Sound es)
    (hi : a.message? i = none) : a.GrowsInto b where
  indices := fun j hj => (hs.mem j).2 (.inl hj)
  find? := hs.keeps
  message? := fun {j n} hn => by
    have hji : j ≠ i := by
      rintro rfl
      rw [hi] at hn
      cases hn
    rw [hs.message?, if_neg hji, hn]
  parent? := fun {j p} hp => by
    have hji : j ≠ i := by
      rintro rfl
      rw [h.ready.topmost j hi] at hp
      cases hp
    rw [hs.parent?, if_neg hji, hp]
  children := fun j hj => ⟨a.kids j, b.kids j, h.linked.children_eq hj,
    hs.linked.children_eq ((hs.mem j).2 (.inl hj)), hs.kids_prefix j⟩
  dateOf := fun _ hj => hs.dateOf_le h hi hj

end Admits

end MailThread.Arena
