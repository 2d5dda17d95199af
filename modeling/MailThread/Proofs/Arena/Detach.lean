import MailThread.Proofs.Arena.Hang
import Mathlib.Data.List.Nodup

namespace MailThread

/-- The container at `j`, when `child` leaves the list of `p`, where it stood behind `before` and in
front of `next`. -/
def Container.freed (child p : Index) (before next : Option Index) (j : Index) (c : Container) :
    Container :=
  { c with
    parent := if j = child then none else c.parent
    shownParent := if j = child then none else c.shownParent
    firstChild := if j = p ∧ before = none then next else c.firstChild
    lastChild := if j = p ∧ c.lastChild = some child then before else c.lastChild
    nextSibling := if j = child then none else if some j = before then next else c.nextSibling }

namespace Arena

variable {a b : Arena} {K : Index → List Index} {i j child p : Index} {before next : Option Index}
  {l₁ l₂ : List Index}

/-- A walk stays one when a container is passed over: the one in front of it points on. -/
theorem Path.bypass {field : Container → Option Index} {start : Option Index} {c : Container}
    (h : a.Path field start (l₁ ++ i :: l₂)) (hi : a.get? i = some c)
    (hkeep : ∀ j ∈ l₁ ++ l₂, some j ≠ l₁.getLast? → (b.get? j).map field = (a.get? j).map field)
    (hlast : ∀ j, l₁.getLast? = some j → (b.get? j).map field = some (field c)) :
    b.Path field (if l₁ = [] then field c else start) (l₁ ++ l₂) := by
  induction l₁ generalizing start with
  | nil =>
    cases h with
    | step hc htail =>
      cases hi.symm.trans hc
      exact htail.congr fun j hj => hkeep j hj (by simp)
  | cons k l₁ ih =>
    cases h with
    | step hc htail =>
      have hnodup := (Path.step hc htail).nodup
      have hrest := ih htail (fun j hj hne => by
        refine hkeep j (List.mem_cons_of_mem k hj) fun he => hne ?_
        cases l₁ with
        | nil =>
          -- `k` itself does not come again
          obtain rfl : j = k := Option.some.inj he
          exact absurd (List.mem_cons_of_mem i hj) (List.nodup_cons.1 hnodup).1
        | cons => exact he) fun j hj => hlast j (by
          cases l₁ with
          | nil => cases hj
          | cons => exact hj)
      rw [if_neg (List.cons_ne_nil k l₁)]
      cases l₁ with
      | nil =>
        obtain ⟨d, hd, hdn⟩ := Option.map_eq_some_iff.1 (hlast k rfl)
        exact .step hd (hdn ▸ hrest)
      | cons m l₁ =>
        have hk := hkeep k (by simp) fun he => by
          rw [List.getLast?_cons_cons] at he
          exact (List.nodup_cons.1 hnodup).1
            (List.mem_append_left _ (List.mem_of_getLast? he.symm))
        rw [hc] at hk
        obtain ⟨d, hd, hdn⟩ := Option.map_eq_some_iff.1 hk
        exact .step hd (hdn ▸ hrest)

/-- `b` is the arena `a` with `child` taken out of the list of `p`. -/
abbrev Freed (a b : Arena) (child p : Index) (before next : Option Index) : Prop :=
  a.Rewired b (Container.freed child p before next)

theorem freed_unlist (a : Arena) (child p : Index) (before next : Option Index) :
    a.Freed ((a.unlist p before child next).update child fun c =>
      { c with parent := none, shownParent := none, nextSibling := none }) child p before next := by
  refine ⟨?_, ?_, fun j => ?_, fun _ _ => ⟨rfl, rfl⟩⟩
  · cases before <;> simp [unlist]
  · cases before <;> simp [unlist]
  · cases before with
    | none =>
      simp only [unlist, get?_update]
      cases a.get? j with
      | none => simp
      | some e =>
        cases e
        grind [Container.freed]
    | some k =>
      simp only [unlist, get?_update]
      cases a.get? j with
      | none => simp
      | some e =>
        cases e
        grind [Container.freed]

namespace Freed

variable (hb : a.Freed b child p before next)
include hb

theorem parent?_eq (i : Index) : b.parent? i = if i = child then none else a.parent? i := by
  unfold parent?
  rw [hb.get?, Option.bind_map]
  split
  next hi => simp [Container.freed, hi]
  next hi =>
    cases a.get? i with
    | none => rfl
    | some c => simp [Container.freed, hi]

theorem map_nextSibling (hic : i ≠ child) (hib : some i ≠ before) :
    (b.get? i).map (·.nextSibling) = (a.get? i).map (·.nextSibling) :=
  hb.map_eq fun c => by simp [Container.freed, hic, hib]

end Freed

theorem below_of_freed (hb : ∀ x, b.parent? x = if x = child then none else a.parent? x)
    (h : b.Below i j) : a.Below i j :=
  Relation.ReflTransGen.mono (fun x y hxy => by
    rw [hb] at hxy
    split at hxy
    · cases hxy
    · exact hxy) _ _ h

theorem below_freed_iff (hb : ∀ x, b.parent? x = if x = child then none else a.parent? x) :
    b.Below i child ↔ a.Below i child := by
  refine ⟨below_of_freed hb, fun h => ?_⟩
  induction h using Relation.ReflTransGen.head_induction_on with
  | refl => exact .refl b child
  | @head x y hx _ ih =>
    by_cases hxc : x = child
    · rw [hxc]
      exact .refl b child
    · exact .trans (.of_parent (by rw [hb, if_neg hxc, hx])) ih

namespace LinkedAs

variable {c : Container} (h : a.LinkedAs K) (hK : K p = l₁ ++ child :: l₂)
  (hb : a.Freed b child p l₁.getLast? l₂.head?)
include h hK

theorem freed_parent : a.parent? child = some p := h.listed.1 (by simp [hK])

theorem freed_notMem : child ∉ l₁ ++ l₂ := by
  obtain ⟨c, hc⟩ := Arena.mem_indices.1 (h.rooted.parent_mem (h.freed_parent hK))
  have hnodup := (h.chain hc).nodup
  rw [hK, List.nodup_middle] at hnodup
  exact (List.nodup_cons.1 hnodup).1

theorem freed_next (hc : a.get? child = some c) : c.nextSibling = l₂.head? := by
  obtain ⟨d, hd⟩ := Arena.mem_indices.1 (h.rooted.parent_mem (h.freed_parent hK))
  have hchain := h.chain hd
  rw [hK] at hchain
  clear hd hK
  generalize d.firstChild = start at hchain
  induction l₁ generalizing start with
  | nil =>
    cases hchain with
    | step hc' htail =>
      cases hc.symm.trans hc'
      generalize c.nextSibling = next at htail
      cases htail <;> rfl
  | cons k l₁ ih =>
    cases hchain with
    | step _ htail => exact ih _ htail

include hb

theorem freed_chain_of_ne (hic : b.get? i = some c) (hip : i ≠ p) :
    b.Path (·.nextSibling) c.firstChild (K i) := by
  obtain ⟨d, hd, rfl⟩ := hb.get?_back hic
  rw [show (d.freed child p l₁.getLast? l₂.head? i).firstChild = d.firstChild by
    simp [Container.freed, hip]]
  have apart : ∀ {j}, j ∈ K i → j ∉ K p := fun hj hj' =>
    hip (Option.some.inj ((h.listed.1 hj).symm.trans (h.listed.1 hj')))
  refine (h.chain hd).congr fun j hj => hb.map_nextSibling ?_ ?_
  · rintro rfl
    exact apart hj (by simp [hK])
  · intro hl
    have hj' : j ∈ l₁ := List.mem_of_getLast? hl.symm
    exact apart hj (by simp [hK, hj'])

theorem freed_chain_self (hpc : b.get? p = some c) :
    b.Path (·.nextSibling) c.firstChild (l₁ ++ l₂) := by
  obtain ⟨d, hd, rfl⟩ := hb.get?_back hpc
  obtain ⟨e, he⟩ := Arena.mem_indices.1 (mem_indices_of_parent? (h.freed_parent hK))
  have hnot := h.freed_notMem hK
  have hchain := h.chain hd
  rw [hK] at hchain
  have hstart : (d.freed child p l₁.getLast? l₂.head? p).firstChild =
      if l₁ = [] then e.nextSibling else d.firstChild := by
    simp [Container.freed, h.freed_next hK he]
  rw [hstart]
  refine hchain.bypass he (fun j hj hne => hb.map_nextSibling ?_ hne) fun j hj => ?_
  · rintro rfl
    exact hnot hj
  · have hj' : j ∈ l₁ := List.mem_of_getLast? hj
    have hne : j ≠ child := by
      rintro rfl
      exact hnot (List.mem_append_left _ hj')
    obtain ⟨f, hf⟩ := Arena.mem_indices.1 (hchain.mem_indices (List.mem_append_left _ hj'))
    rw [hb.get?, hf, h.freed_next hK he]
    simp [Container.freed, hne, hj]

theorem freed_last {d : Container} (hd : a.get? p = some d) :
    (d.freed child p l₁.getLast? l₂.head? p).lastChild = (l₁ ++ l₂).getLast? := by
  have hlast := h.last hd
  have hnot := h.freed_notMem hK
  rw [hK] at hlast
  rcases List.eq_nil_or_concat l₂ with rfl | ⟨l, last, rfl⟩
  · simp [Container.freed, hlast]
  · rw [List.concat_eq_append] at hlast hnot ⊢
    have hne : last ≠ child := by
      rintro rfl
      exact hnot (by simp)
    have hlast' : d.lastChild = some last := by
      rw [hlast, ← List.cons_append, ← List.append_assoc, List.getLast?_concat]
    rw [← List.append_assoc, List.getLast?_concat]
    simp [Container.freed, hlast', hne]

omit hK in
theorem freed_rooted : b.Rooted := by
  have cut : ∀ start l, a.Path (·.parent) start l → ∃ l', b.Path (·.parent) start l' := by
    intro start l hl
    induction hl with
    | stop => exact ⟨[], .stop⟩
    | @step i c l hic _ ih =>
      obtain ⟨d, hd⟩ := Arena.mem_indices.1 (hb.mem_indices.2 (mem_indices_of_get? hic))
      have hdp := hb.parent?_eq i
      rw [parent?_of_get? hd] at hdp
      by_cases hi : i = child
      · rw [if_pos hi] at hdp
        exact ⟨[i], .step hd (hdp ▸ .stop)⟩
      · rw [if_neg hi, parent?_of_get? hic] at hdp
        obtain ⟨l', hl'⟩ := ih
        exact ⟨i :: l', .step hd (hdp ▸ hl')⟩
  intro i hi
  obtain ⟨l, hl⟩ := h.rooted i (hb.mem_indices.1 hi)
  exact cut _ l hl

theorem freed : b.LinkedAs (Function.update K p (l₁ ++ l₂)) where
  chain := fun {i c} hic => by
    by_cases hip : i = p
    · subst hip
      rw [Function.update_self]
      exact h.freed_chain_self hK hb hic
    · rw [Function.update_of_ne hip]
      exact h.freed_chain_of_ne hK hb hic hip
  last := fun {i c} hic => by
    obtain ⟨d, hd, rfl⟩ := hb.get?_back hic
    by_cases hip : i = p
    · subst hip
      rw [Function.update_self]
      exact h.freed_last hK hb hd
    · rw [Function.update_of_ne hip, ← h.last hd]
      simp [Container.freed, hip]
  listed := fun {i j} => by
    have hne : j ∈ l₁ ++ l₂ → j ≠ child := by
      rintro hj rfl
      exact h.freed_notMem hK hj
    have hmem : j ∈ K p ↔ j = child ∨ j ∈ l₁ ++ l₂ := by
      rw [hK, List.mem_append, List.mem_cons, List.mem_append]
      exact or_left_comm
    rw [hb.parent?_eq]
    by_cases hjc : j = child
    · rw [if_pos hjc]
      by_cases hip : i = p
      · subst hip
        rw [Function.update_self]
        exact ⟨fun hj => absurd hjc (hne hj), nofun⟩
      · rw [Function.update_of_ne hip, h.listed, hjc, h.freed_parent hK]
        simp [Ne.symm hip]
    · rw [if_neg hjc]
      by_cases hip : i = p
      · subst hip
        rw [Function.update_self, ← h.listed, hmem]
        simp [hjc]
      · rw [Function.update_of_ne hip, h.listed]
  free := fun {i c} hic hnone => by
    obtain ⟨d, hd, rfl⟩ := hb.get?_back hic
    by_cases hi : i = child
    · simp [Container.freed, hi]
    · have hdp : d.parent = none := by simpa [Container.freed, hi] using hnone
      have hil : some i ≠ l₁.getLast? := fun hl => by
        have hmem : i ∈ l₁ := List.mem_of_getLast? hl.symm
        have hip := h.listed.1 (show i ∈ K p by simp [hK, hmem])
        rw [parent?_of_get? hd, hdp] at hip
        cases hip
      simpa [Container.freed, hi, hil] using h.free hd hdp
  rooted := h.freed_rooted hb

end LinkedAs

/-- `b` is the arena `a` in which `child` has no parent any more. -/
structure Cut (a b : Arena) (child : Index) : Prop where
  linked : b.Linked
  ids : b.ids = a.ids
  size : b.size = a.size
  message? : ∀ i, b.message? i = a.message? i
  dateOf : ∀ i, b.dateOf i = a.dateOf i
  parent? : ∀ i, b.parent? i = if i = child then none else a.parent? i
  kids : ∀ i, b.kids i = (a.kids i).erase child

theorem Cut.refl (h : a.Linked) (hfree : a.parent? child = none) : a.Cut a child where
  linked := h
  ids := rfl
  size := rfl
  message? := fun _ => rfl
  dateOf := fun _ => rfl
  parent? := fun i => by
    split
    next hi => rw [hi, hfree]
    next => rfl
  kids := fun i => by
    rw [List.erase_of_not_mem]
    intro hmem
    rw [h.mem_kids.1 hmem] at hfree
    cases hfree

/-- A child is taken out of its list, wherever it stands there. -/
theorem Linked.detach_of_parent (h : a.Linked) (hp : a.parent? child = some p) :
    ∃ l₁ l₂ b, a.kids p = l₁ ++ child :: l₂ ∧ a.detach child = .ok b ∧
      a.Freed b child p l₁.getLast? l₂.head? := by
  obtain ⟨c, hc, hcp⟩ := get?_of_parent? hp
  obtain ⟨d, hd⟩ := Arena.mem_indices.1 (h.rooted.parent_mem hp)
  have hmem : child ∈ a.kids p := h.mem_kids.2 hp
  obtain ⟨l₁, l₂, hK⟩ := List.append_of_mem hmem
  have hbefore : (a.kids p).takeWhile (· ≠ child) = l₁ := by
    have hnot := LinkedAs.freed_notMem h hK
    rw [hK, List.takeWhile_append_of_pos fun j hj => ?_, List.takeWhile_cons_of_neg (by simp),
      List.append_nil]
    exact decide_eq_true fun e : j = child => hnot (List.mem_append_left _ (e ▸ hj))
  refine ⟨l₁, l₂, _, hK, ?_, freed_unlist a child p l₁.getLast? l₂.head?⟩
  simp only [detach, get_of_get? hc, ok_bind, hcp, get_of_get? hd, h.childTrail_eq hd,
    if_pos hmem, hbefore, LinkedAs.freed_next h hK hc]
  rfl

theorem Linked.detach_eq (h : a.Linked) (hc : child ∈ a.indices) :
    ∃ b, a.detach child = .ok b ∧ a.Cut b child := by
  cases hp : a.parent? child with
  | none => exact ⟨a, detach_of_parentless hc hp, .refl h hp⟩
  | some p =>
    obtain ⟨l₁, l₂, b, hK, hdetach, hb⟩ := h.detach_of_parent hp
    have hl := LinkedAs.freed h hK hb
    refine ⟨b, hdetach, hl.linked, hb.ids, hb.size, hb.message?_eq, hb.dateOf_eq, hb.parent?_eq,
      fun i => ?_⟩
    rw [hl.kids_eq]
    by_cases hip : i = p
    · have hnot : child ∉ l₁ := fun hmem =>
        LinkedAs.freed_notMem h hK (List.mem_append_left _ hmem)
      rw [hip, Function.update_self, hK, List.erase_append_right _ hnot, List.erase_cons_head]
    · rw [Function.update_of_ne hip, List.erase_of_not_mem]
      intro hmem
      exact hip (Option.some.inj ((h.mem_kids.1 hmem).symm.trans hp))

end Arena

end MailThread
