import MailThread.Proofs.Arena.Linked

namespace MailThread.Arena

variable {a : Arena} {i j k target : Index} {seen work : List Index}

/-- `j` can be reached from `i` by steps to children. -/
def Reach (a : Arena) (i j : Index) : Prop :=
  Relation.ReflTransGen (fun x y => y ∈ a.kids x) i j

/-- Every child list ends. -/
def Chained (a : Arena) : Prop :=
  ∀ i c, a.get? i = some c → ∃ l, a.Path (·.nextSibling) c.firstChild l

theorem Reach.refl (a : Arena) (i : Index) : a.Reach i i := Relation.ReflTransGen.refl

theorem Reach.step (h : j ∈ a.kids i) (hr : a.Reach j k) : a.Reach i k :=
  Relation.ReflTransGen.head h hr

theorem Reach.cases_head (h : a.Reach i j) : i = j ∨ ∃ k ∈ a.kids i, a.Reach k j :=
  (Relation.ReflTransGen.cases_head h).imp_right fun ⟨k, hk, hr⟩ => ⟨k, hk, hr⟩

theorem Reach.eq_of_childless (h : a.Reach i j) (hk : a.kids i = []) : i = j := by
  rcases h.cases_head with rfl | ⟨k, hk', _⟩
  · rfl
  · rw [hk] at hk'
    cases hk'

theorem kids_eq_nil {c : Container} (hc : a.get? i = some c) (h : c.firstChild.isNone) :
    a.kids i = [] := by
  simp [kids, hc, childTrail, Option.isNone_iff_eq_none.1 h, siblings]

namespace Chained

variable {c : Container} (h : a.Chained)
include h

theorem path (hc : a.get? i = some c) : a.Path (·.nextSibling) c.firstChild (a.kids i) := by
  obtain ⟨l, hl⟩ := h i c hc
  simpa only [kids, hc, childTrail_of_path hl] using hl

theorem childTrail_eq (hc : a.get? i = some c) : a.childTrail c = { visited := a.kids i } :=
  childTrail_of_path (h.path hc)

theorem kids_subset (i : Index) : a.kids i ⊆ a.indices := by
  intro k hk
  cases hc : a.get? i with
  | none => simp [kids, hc] at hk
  | some c => exact (h.path hc).mem_indices hk

end Chained

theorem Linked.chained (h : a.Linked) : a.Chained := fun i _ hc => ⟨a.kids i, LinkedAs.chain h hc⟩

theorem Linked.reach_iff_below (h : a.Linked) : a.Reach i j ↔ a.Below j i := by
  unfold Reach Below
  rw [← Relation.reflTransGen_swap]
  rw [show (fun x y => y ∈ a.kids x) = Function.swap fun x y => a.parent? x = some y by
    funext x y
    exact propext h.mem_kids]

/-- What a search has done so far: it has met `target` neither in an expanded container nor among the
children of one, and each of these children waits, was expanded, or has no children itself. -/
structure Searched (a : Arena) (target : Index) (seen work : List Index) : Prop where
  waiting : work ⊆ a.indices
  expanded : ∀ i ∈ seen, i ≠ target ∧
    ∀ k ∈ a.kids i, k ≠ target ∧ (k ∈ work ∨ k ∈ seen ∨ a.kids k = [])

namespace Searched

variable {rest : List Index}

theorem exists_waiting (h : a.Searched target seen work) (hi : i ∈ seen) (hr : a.Reach i target) :
    ∃ w ∈ work, w ∉ seen ∧ a.Reach w target := by
  induction hr using Relation.ReflTransGen.head_induction_on with
  | refl => exact absurd rfl (h.expanded target hi).1
  | @head x k hk hr ih =>
    obtain ⟨hne, hw⟩ := (h.expanded x hi).2 k hk
    -- the first child on the way that is not expanded waits, unless the way ends before it
    by_cases hks : k ∈ seen
    · exact ih hks
    · rcases hw with hw | hw | hw
      · exact ⟨k, hw, hks, hr⟩
      · exact absurd hw hks
      · exact absurd (Reach.eq_of_childless hr hw) hne

theorem skip (h : a.Searched target seen (i :: rest)) (hi : i ∈ seen ∨ a.kids i = []) :
    a.Searched target seen rest where
  waiting := fun k hk => h.waiting (List.mem_cons_of_mem i hk)
  expanded := fun x hx => by
    refine ⟨(h.expanded x hx).1, fun k hk => ?_⟩
    obtain ⟨hne, hw⟩ := (h.expanded x hx).2 k hk
    refine ⟨hne, ?_⟩
    rcases hw with hw | hw
    · rcases List.mem_cons.1 hw with rfl | hw
      · exact .inr hi
      · exact .inl hw
    · exact .inr hw

theorem expand (h : a.Searched target seen (i :: rest)) (hne : i ≠ target)
    (hkids : a.kids i ⊆ a.indices) (ht : target ∉ a.kids i) :
    a.Searched target (i :: seen) ((a.kids i).reverse ++ rest) where
  waiting := by
    intro k hk
    rcases List.mem_append.1 hk with hk | hk
    · exact hkids (List.mem_reverse.1 hk)
    · exact h.waiting (List.mem_cons_of_mem i hk)
  expanded := fun x hx => by
    rcases List.mem_cons.1 hx with rfl | hx
    · refine ⟨hne, fun k hk => ⟨fun e => ht (e ▸ hk), .inl ?_⟩⟩
      exact List.mem_append.2 (.inl (List.mem_reverse.2 hk))
    · refine ⟨(h.expanded x hx).1, fun k hk => ?_⟩
      obtain ⟨hne', hw⟩ := (h.expanded x hx).2 k hk
      refine ⟨hne', ?_⟩
      rcases hw with hw | hw | hw
      · rcases List.mem_cons.1 hw with rfl | hw
        · exact .inr (.inl List.mem_cons_self)
        · exact .inl (List.mem_append.2 (.inr hw))
      · exact .inr (.inl (List.mem_cons_of_mem i hw))
      · exact .inr (.inr hw)

end Searched

/-- The search finds `target` exactly if it can be reached from a container that waits. -/
theorem search_eq_ok (hch : a.Chained) (h : a.Searched target seen work) :
    ∃ found, a.search target seen work = .ok found ∧
      (found = true ↔ ∃ w ∈ work, a.Reach w target) := by
  fun_induction a.search target seen work with
  | case1 => exact ⟨false, rfl, by simp⟩
  | case2 seen rest ih =>
    -- only containers wait, and the missing one is none
    exact absurd rfl (ne_missing_of_mem (h.waiting List.mem_cons_self))
  | case3 seen rest =>
    exact ⟨true, rfl, by simpa using .inl (.refl a target)⟩
  | case4 seen i rest _ _ hc =>
    -- the lookup of a container that waits does not fail
    obtain ⟨c, hc'⟩ := mem_indices.1 (h.waiting List.mem_cons_self)
    rw [hc] at hc'
    cases hc'
  | case5 seen i rest _ hne c hc hleaf ih =>
    -- from a container without children nothing else is reached
    have hk := kids_eq_nil hc hleaf
    obtain ⟨found, hs, hf⟩ := ih (h.skip (.inr hk))
    refine ⟨found, hs, hf.trans ?_⟩
    simp only [List.mem_cons, exists_eq_or_imp]
    exact ⟨.inr, fun hr => hr.resolve_left fun hr => hne (hr.eq_of_childless hk)⟩
  | case6 seen i rest _ hne c hc _ hi ih =>
    obtain ⟨found, hs, hf⟩ := ih (h.skip (.inl hi))
    refine ⟨found, hs, hf.trans ?_⟩
    simp only [List.mem_cons, exists_eq_or_imp]
    refine ⟨.inr, fun hr => hr.elim (fun hr => ?_) id⟩
    obtain ⟨w, hw, hwu, hrw⟩ := h.exists_waiting hi hr
    -- `i` itself was expanded, so the container that waits is another one
    rcases List.mem_cons.1 hw with rfl | hw
    · exact absurd hi hwu
    · exact ⟨w, hw, hrw⟩
  | case7 seen i rest _ hne c hc _ hi trail ht =>
    have ht' : target ∈ a.kids i := by simpa only [trail, hch.childTrail_eq hc] using ht
    exact ⟨true, rfl, by simpa using .inl (.step ht' (.refl a target))⟩
  | case8 seen i rest _ hne c hc _ hi trail _ f hf =>
    -- a child list that ends has no fault
    simp only [trail, hch.childTrail_eq hc] at hf
    cases hf
  | case9 seen i rest _ hne c hc _ hi trail ht _ ih =>
    -- `i` is expanded: its children wait in its place
    have hv : trail.visited = a.kids i := by simp only [trail, hch.childTrail_eq hc]
    rw [hv] at ht ih ⊢
    obtain ⟨found, hs, hf⟩ := ih (h.expand hne (hch.kids_subset i) ht)
    refine ⟨found, hs, hf.trans ?_⟩
    simp only [List.mem_append, List.mem_reverse, List.mem_cons, or_and_right, exists_or,
      exists_eq_left]
    refine or_congr_left ⟨fun ⟨w, hw, hr⟩ => .step hw hr, fun hr => ?_⟩
    exact hr.cases_head.resolve_left hne

theorem isBelow_eq_ok (hch : a.Chained) (node : Index) {ancestor : Index}
    (ha : ancestor ∈ a.indices) :
    ∃ found, a.isBelow node ancestor = .ok found ∧ (found = true ↔ a.Reach ancestor node) := by
  have h : a.Searched node [] [ancestor] :=
    { waiting := fun i hi => List.mem_singleton.1 hi ▸ ha
      expanded := fun i hi => absurd hi List.not_mem_nil }
  obtain ⟨found, hs, hf⟩ := search_eq_ok hch h
  exact ⟨found, hs, by simpa using hf⟩

/-- Two containers are related if one lies below the other. -/
theorem Linked.related_eq_ok (h : a.Linked) {child p : Index} (hc : child ∈ a.indices)
    (hp : p ∈ a.indices) :
    ∃ found, a.related child p = .ok found ∧
      (found = true ↔ a.Below p child ∨ a.Below child p) := by
  obtain ⟨up, hup, hupIff⟩ := isBelow_eq_ok h.chained p hc
  obtain ⟨down, hdown, hdownIff⟩ := isBelow_eq_ok h.chained child hp
  rw [h.reach_iff_below] at hupIff hdownIff
  unfold related
  rw [hup, ok_bind, hdown]
  cases up with
  | true => exact ⟨true, rfl, by simp [hupIff.1 rfl]⟩
  | false =>
    refine ⟨down, rfl, hdownIff.trans ⟨.inr, fun hb => hb.resolve_left fun hu => ?_⟩⟩
    exact Bool.false_ne_true (hupIff.2 hu)

end MailThread.Arena
