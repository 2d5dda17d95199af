import MailThread.Proofs.Arena.Path
import MailThread.Proofs.Outcome

namespace MailThread.Arena

variable {a b : Arena} {i j k p r : Index} {l : List Index}

/-- `i` is the container `j` or lies in the tree below it. -/
def Below (a : Arena) (i j : Index) : Prop :=
  Relation.ReflTransGen (fun x y => a.parent? x = some y) i j

/-- Every way up from a container ends. -/
def Rooted (a : Arena) : Prop := ∀ i ∈ a.indices, ∃ l, a.Path (·.parent) (some i) l

theorem parent?_of_get? {c : Container} (h : a.get? i = some c) : a.parent? i = c.parent := by
  simp [parent?, h]

theorem get?_of_parent? (h : a.parent? i = some p) :
    ∃ c, a.get? i = some c ∧ c.parent = some p := Option.bind_eq_some_iff.1 h

theorem mem_indices_of_parent? (h : a.parent? i = some p) : i ∈ a.indices := by
  obtain ⟨c, hc, _⟩ := get?_of_parent? h
  exact mem_indices_of_get? hc

theorem parent?_of_notMem (h : i ∉ a.indices) : a.parent? i = none := by
  cases hp : a.parent? i with
  | none => rfl
  | some p => exact absurd (mem_indices_of_parent? hp) h

namespace Below

theorem refl (a : Arena) (i : Index) : a.Below i i := Relation.ReflTransGen.refl

theorem trans (h : a.Below i j) (h' : a.Below j k) : a.Below i k :=
  Relation.ReflTransGen.trans h h'

theorem of_parent (h : a.parent? i = some p) : a.Below i p := Relation.ReflTransGen.single h

theorem cases_head (h : a.Below i j) : i = j ∨ ∃ p, a.parent? i = some p ∧ a.Below p j :=
  Relation.ReflTransGen.cases_head h

theorem cases_tail (h : a.Below i j) : j = i ∨ ∃ k, a.Below i k ∧ a.parent? k = some j :=
  Relation.ReflTransGen.cases_tail h

theorem eq_of_parentless (h : a.Below i j) (hi : a.parent? i = none) : i = j := by
  rcases h.cases_head with rfl | ⟨p, hp, _⟩
  · rfl
  · rw [hi] at hp
    cases hp

theorem total (h : a.Below i j) (h' : a.Below i k) : a.Below j k ∨ a.Below k j :=
  Relation.ReflTransGen.total_of_right_unique
    (fun _ _ _ e e' => Option.some.inj (e.symm.trans e')) h h'

theorem top_unique {r r' : Index} (hr : a.Below i r) (hr' : a.Below i r')
    (hnone : a.parent? r = none) (hnone' : a.parent? r' = none) : r = r' := by
  rcases hr.total hr' with e | e
  · exact e.eq_of_parentless hnone
  · exact (e.eq_of_parentless hnone').symm

theorem congr (he : ∀ x, b.parent? x = a.parent? x) : b.Below i j ↔ a.Below i j := by
  unfold Below
  rw [show (fun x y => b.parent? x = some y) = fun x y => a.parent? x = some y by
    funext x y
    rw [he]]

end Below

/-- What lies below what, after a container without a parent was hung under `p`. -/
theorem below_hang {child : Index} (hc : a.parent? child = none)
    (hb : ∀ x, b.parent? x = if x = child then some p else a.parent? x) :
    b.Below i j ↔ a.Below i j ∨ (a.Below i child ∧ a.Below p j) := by
  have keeps : ∀ {x y}, a.Below x y → b.Below x y := fun h =>
    Relation.ReflTransGen.mono (fun x y hxy => by
      have hne : x ≠ child := by
        rintro rfl
        rw [hc] at hxy
        cases hxy
      rw [hb, if_neg hne, hxy]) _ _ h
  constructor
  · intro h
    -- on the way up each step is an old one or the new link
    induction h using Relation.ReflTransGen.head_induction_on with
    | refl => exact .inl (.refl a j)
    | @head x z hx _ ih =>
      rw [hb] at hx
      by_cases hxc : x = child
      · rw [if_pos hxc] at hx
        cases hx
        exact .inr ⟨hxc ▸ .refl a child, ih.elim id And.right⟩
      · rw [if_neg hxc] at hx
        exact ih.imp (.trans (.of_parent hx)) (And.imp_left (.trans (.of_parent hx)))
  · rintro (h | ⟨h, h'⟩)
    · exact keeps h
    · exact (keeps h).trans (.trans (.of_parent (by rw [hb, if_pos rfl])) (keeps h'))

namespace Path

theorem mem_iff_below (h : a.Path (·.parent) (some i) l) : j ∈ l ↔ a.Below i j := by
  generalize hs : some i = start at h
  induction h generalizing i with
  | stop => cases hs
  | @step k c l hc htail ih =>
    cases hs
    rw [List.mem_cons]
    constructor
    · rintro (rfl | hj)
      · exact .refl a j
      · cases hp : c.parent with
        | none =>
          rw [hp] at htail
          cases htail
          cases hj
        | some p =>
          exact .trans (.of_parent ((parent?_of_get? hc).trans hp)) ((ih hp.symm).1 hj)
    · intro hj
      rcases hj.cases_head with rfl | ⟨p, hp, hj⟩
      · exact .inl rfl
      · exact .inr ((ih ((parent?_of_get? hc).symm.trans hp).symm).2 hj)

theorem getLast?_parentless (h : a.Path (·.parent) (some i) l) :
    ∃ r, l.getLast? = some r ∧ a.parent? r = none := by
  generalize hs : some i = start at h
  induction h generalizing i with
  | stop => cases hs
  | @step k c l hc htail ih =>
    cases hp : c.parent with
    | none =>
      rw [hp] at htail
      cases htail
      exact ⟨k, rfl, (parent?_of_get? hc).trans hp⟩
    | some p =>
      obtain ⟨r, hr, hnone⟩ := ih hp.symm
      refine ⟨r, ?_, hnone⟩
      rw [List.getLast?_cons, hr]
      rfl

end Path

namespace Rooted

variable (h : a.Rooted)
include h

theorem not_below_of_parent (hp : a.parent? i = some p) : ¬ a.Below p i := by
  intro hpi
  obtain ⟨l, hl⟩ := h i (mem_indices_of_parent? hp)
  cases hl with
  | @step _ c l hc htail =>
    have hnodup := (Path.step hc htail).nodup
    rw [(parent?_of_get? hc).symm.trans hp] at htail
    exact (List.nodup_cons.1 hnodup).1 (htail.mem_iff_below.2 hpi)

theorem parent_mem (hp : a.parent? i = some p) : p ∈ a.indices := by
  obtain ⟨l, hl⟩ := h i (mem_indices_of_parent? hp)
  exact hl.mem_indices (hl.mem_iff_below.2 (.of_parent hp))

theorem mem_of_below (hi : i ∈ a.indices) (hij : a.Below i j) : j ∈ a.indices := by
  obtain ⟨l, hl⟩ := h i hi
  exact hl.mem_indices (hl.mem_iff_below.2 hij)

theorem mem_of_branch (hne : i ≠ j) (hij : a.Below i j) : i ∈ a.indices ∧ j ∈ a.indices := by
  obtain ⟨p, hp, _⟩ := hij.cases_head.resolve_left hne
  have hi := mem_indices_of_parent? hp
  exact ⟨hi, h.mem_of_below hi hij⟩

theorem induction {motive : Index → Prop} (hi : i ∈ a.indices)
    (step : ∀ i ∈ a.indices, (∀ p, a.parent? i = some p → motive p) → motive i) : motive i := by
  obtain ⟨l, hl⟩ := h i hi
  generalize hs : some i = start at hl
  induction hl generalizing i with
  | stop => cases hs
  | @step k c l hc htail ih =>
    cases hs
    apply step k hi
    intro p hp
    exact ih (h.parent_mem hp) ((parent?_of_get? hc).symm.trans hp).symm

theorem exists_top (hi : i ∈ a.indices) : ∃ r, a.Below i r ∧ a.parent? r = none := by
  obtain ⟨l, hl⟩ := h i hi
  obtain ⟨r, hr, hnone⟩ := hl.getLast?_parentless
  exact ⟨r, hl.mem_iff_below.1 (List.mem_of_getLast? hr), hnone⟩

theorem root_eq_ok {r : Index} (hi : i ∈ a.indices) :
    a.root i = .ok r ↔ a.Below i r ∧ a.parent? r = none := by
  obtain ⟨l, hl⟩ := h i hi
  obtain ⟨t, ht, hnone⟩ := hl.getLast?_parentless
  have hroot : a.root i = .ok t := by
    simp only [root, wayUp_of_path hl, Trail.toExcept, ok_bind, ht, Option.getD_some]
    rfl
  have htop : a.Below i t := hl.mem_iff_below.1 (List.mem_of_getLast? ht)
  rw [hroot]
  constructor
  · intro e
    cases e
    exact ⟨htop, hnone⟩
  · rintro ⟨hr, hr'⟩
    rw [htop.top_unique hr hnone hr']

end Rooted

def Together (a : Arena) (i j : Index) : Prop := ∃ r, a.Below i r ∧ a.Below j r

namespace Together

theorem of_below (h : a.Below i j) : a.Together i j := ⟨j, h, .refl a j⟩

theorem symm (h : a.Together i j) : a.Together j i := by
  obtain ⟨r, hi, hj⟩ := h
  exact ⟨r, hj, hi⟩

theorem trans (h : a.Together i j) (h' : a.Together j p) : a.Together i p := by
  obtain ⟨r, hi, hj⟩ := h
  obtain ⟨q, hj', hp⟩ := h'
  rcases hj.total hj' with hrq | hqr
  · exact ⟨q, hi.trans hrq, hp⟩
  · exact ⟨r, hi, hp.trans hqr⟩

theorem below_top (h : a.Together i j) (hi : a.Below i r) (hr : a.parent? r = none) :
    a.Below j r := by
  obtain ⟨q, hiq, hjq⟩ := h
  rcases hi.total hiq with hrq | hqr
  · rwa [hrq.eq_of_parentless hr]
  · exact hjq.trans hqr

end Together

theorem Rooted.root_eq_iff (h : a.Rooted) (hi : i ∈ a.indices) (hj : j ∈ a.indices) :
    ∃ r s, a.root i = .ok r ∧ a.root j = .ok s ∧ (r = s ↔ a.Together i j) := by
  obtain ⟨r, hir, hr⟩ := h.exists_top hi
  obtain ⟨s, hjs, hs⟩ := h.exists_top hj
  refine ⟨r, s, (h.root_eq_ok hi).2 ⟨hir, hr⟩, (h.root_eq_ok hj).2 ⟨hjs, hs⟩, ?_, fun ht => ?_⟩
  · rintro rfl
    exact ⟨r, hir, hjs⟩
  · exact (ht.below_top hir hr).top_unique hjs hr hs

end MailThread.Arena
