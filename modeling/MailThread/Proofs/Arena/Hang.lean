import MailThread.Proofs.Arena.Search
import Mathlib.Logic.Function.Basic
import Mathlib.Tactic.SplitIfs

namespace MailThread

/-- The container at `j`, when `child` comes behind `last` as the last child of `p`. -/
def Container.hung (child p : Index) (last : Option Index) (j : Index) (c : Container) : Container :=
  { c with
    parent := if j = child then some p else c.parent
    shownParent := if j = child then some p else c.shownParent
    firstChild := if j = p ∧ last = none then some child else c.firstChild
    lastChild := if j = p then some child else c.lastChild
    nextSibling := if j = child then none else if some j = last then some child else c.nextSibling }

namespace Arena

variable {a b : Arena} {K : Index → List Index} {i j child p : Index} {last : Option Index}

/-- `b` is the arena `a` with its containers changed by `g`, which leaves messages and dates alone.
-/
structure Rewired (a b : Arena) (g : Index → Container → Container) : Prop where
  ids : b.ids = a.ids
  size : b.size = a.size
  get? : ∀ j, b.get? j = (a.get? j).map (g j)
  keeps : ∀ j c, (g j c).message = c.message ∧ (g j c).date = c.date

namespace Rewired

variable {g : Index → Container → Container} (hb : a.Rewired b g)
include hb

theorem mem_indices : i ∈ b.indices ↔ i ∈ a.indices := by
  unfold indices
  rw [hb.size]

theorem get?_back {c : Container} (hc : b.get? i = some c) : ∃ d, a.get? i = some d ∧ g i d = c := by
  rw [hb.get?] at hc
  exact Option.map_eq_some_iff.1 hc

theorem map_eq {α : Type} {field : Container → α} (hf : ∀ c, field (g i c) = field c) :
    (b.get? i).map field = (a.get? i).map field := by
  rw [hb.get?, Option.map_map]
  exact congrArg (fun f => (a.get? i).map f) (funext hf)

theorem message?_eq (i : Index) : b.message? i = a.message? i := by
  unfold message?
  rw [hb.get?, Option.bind_map]
  exact congrArg (a.get? i).bind (funext fun c => (hb.keeps i c).1)

theorem dateOf_eq (i : Index) : b.dateOf i = a.dateOf i := by
  unfold dateOf
  rw [hb.get?]
  cases a.get? i with
  | none => rfl
  | some c => exact (hb.keeps i c).2

end Rewired

/-- `b` is the arena `a` with `child` hung under `p` behind `last`. -/
abbrev Hung (a b : Arena) (child p : Index) (last : Option Index) : Prop :=
  a.Rewired b (Container.hung child p last)

theorem attach_eq_ok {c : Container} (hp : a.get? p = some c)
    (hlast : ∀ i, c.lastChild = some i → i ∈ a.indices) :
    ∃ b, a.attach child p = .ok b ∧ a.Hung b child p c.lastChild := by
  unfold attach
  rw [get_of_get? hp, ok_bind]
  cases hl : c.lastChild with
  | none =>
    refine ⟨_, rfl, ?_, ?_, fun j => ?_, fun _ _ => ⟨rfl, rfl⟩⟩
    · simp
    · simp
    · simp only [get?_update]
      cases a.get? j with
      | none => simp
      | some e =>
        unfold Container.hung
        split_ifs <;> simp_all
  | some i =>
    obtain ⟨d, hd⟩ := mem_indices.1 (hlast i hl)
    simp only [get_of_get? hd, ok_bind]
    refine ⟨_, rfl, ?_, ?_, fun j => ?_, fun _ _ => ⟨rfl, rfl⟩⟩
    · simp
    · simp
    · simp only [get?_update]
      cases a.get? j with
      | none => simp
      | some e =>
        unfold Container.hung
        split_ifs <;> simp_all

namespace Hung

variable (hb : a.Hung b child p last)
include hb

theorem parent?_eq (hc : child ∈ a.indices) (i : Index) :
    b.parent? i = if i = child then some p else a.parent? i := by
  unfold parent?
  rw [hb.get?, Option.bind_map]
  split
  next hi =>
    obtain ⟨c, hc⟩ := Arena.mem_indices.1 hc
    subst hi
    simp [hc, Container.hung]
  next hi =>
    cases a.get? i with
    | none => rfl
    | some c => simp [Container.hung, hi]

theorem map_nextSibling (hic : i ≠ child) (hil : some i ≠ last) :
    (b.get? i).map (·.nextSibling) = (a.get? i).map (·.nextSibling) :=
  hb.map_eq fun c => by simp [Container.hung, hic, hil]

end Hung

namespace LinkedAs

variable (h : a.LinkedAs K) (hb : a.Hung b child p (K p).getLast?)
  (hc : child ∈ a.indices) (hfree : a.parent? child = none)
include h hb hc hfree

theorem last_ne (hl : some i = (K p).getLast?) : i ∈ K p ∧ i ≠ child := by
  have hmem : i ∈ K p := List.mem_of_getLast? hl.symm
  refine ⟨hmem, ?_⟩
  rintro rfl
  rw [h.listed.1 hmem] at hfree
  cases hfree

theorem hung_chain_of_ne {c : Container} (hic : b.get? i = some c) (hip : i ≠ p) :
    b.Path (·.nextSibling) c.firstChild (K i) := by
  obtain ⟨d, hd, rfl⟩ := hb.get?_back hic
  rw [show (d.hung child p (K p).getLast? i).firstChild = d.firstChild by
    simp [Container.hung, hip]]
  refine (h.chain hd).congr fun j hj => hb.map_nextSibling ?_ ?_
  · rintro rfl
    rw [h.listed.1 hj] at hfree
    cases hfree
  · intro hl
    have hjp := h.listed.1 (h.last_ne hb hc hfree hl).1
    exact hip (Option.some.inj ((h.listed.1 hj).symm.trans hjp))

theorem hung_chain_self {c : Container} (hpc : b.get? p = some c) :
    b.Path (·.nextSibling) c.firstChild (K p ++ [child]) := by
  obtain ⟨e, he⟩ := Arena.mem_indices.1 (hb.mem_indices.2 hc)
  have hend : e.nextSibling = none := by
    obtain ⟨d, _, rfl⟩ := hb.get?_back he
    simp [Container.hung]
  obtain ⟨d, hd, rfl⟩ := hb.get?_back hpc
  rcases List.eq_nil_or_concat (K p) with hK | ⟨l, last, hK⟩
  · rw [show (d.hung child p (K p).getLast? p).firstChild = some child by
      simp [Container.hung, hK], hK]
    exact .step he (hend ▸ .stop)
  · rw [List.concat_eq_append] at hK
    have hchain := h.chain hd
    have hnodup := hchain.nodup
    have hlast : some last = (K p).getLast? := by simp [hK]
    have hne := (h.last_ne hb hc hfree hlast).2
    obtain ⟨d', hd'⟩ := Arena.mem_indices.1
      (hb.mem_indices.2 (hchain.mem_indices (List.mem_of_getLast? hlast.symm)))
    have hnext : d'.nextSibling = some child := by
      obtain ⟨f, _, rfl⟩ := hb.get?_back hd'
      simp [Container.hung, hne, hlast]
    rw [show (d.hung child p (K p).getLast? p).firstChild = d.firstChild by
      simp [Container.hung, hK]]
    rw [hK] at hchain hnodup ⊢
    refine hchain.extend (fun j hj => hb.map_nextSibling ?_ ?_) hd' hnext he hend
    · rintro rfl
      have hj' : j ∈ K p := by simp [hK, hj]
      rw [h.listed.1 hj'] at hfree
      cases hfree
    · intro hl
      cases hl.trans hlast.symm
      exact (List.nodup_append.1 hnodup).2.2 last hj last (List.mem_singleton_self last) rfl

theorem hung_rooted (hp : p ∈ a.indices) (hpc : ¬ a.Below p child) : b.Rooted := by
  have hparent := hb.parent?_eq hc
  have hmap : ∀ j, j ≠ child →
      (b.get? j).map (·.parent) = (a.get? j).map (·.parent) := fun j hj => by
    rw [hb.get?, Option.map_map]
    cases a.get? j with
    | none => rfl
    | some d => simp [Container.hung, hj]
  -- the way up from `p` does not meet `child` and stays as it is
  obtain ⟨lp, hlp⟩ := h.rooted p hp
  have hlp' : b.Path (·.parent) (some p) lp := hlp.congr fun j hj => hmap j <| by
    rintro rfl
    exact hpc (hlp.mem_iff_below.1 hj)
  have lift : ∀ start l, a.Path (·.parent) start l → ∃ l', b.Path (·.parent) start l' := by
    intro start l hl
    induction hl with
    | stop => exact ⟨[], .stop⟩
    | @step i c l hic _ ih =>
      obtain ⟨d, hd⟩ := Arena.mem_indices.1 (hb.mem_indices.2 (mem_indices_of_get? hic))
      have hdp := hparent i
      rw [parent?_of_get? hd] at hdp
      by_cases hi : i = child
      · rw [if_pos hi] at hdp
        exact ⟨i :: lp, .step hd (hdp ▸ hlp')⟩
      · rw [if_neg hi, parent?_of_get? hic] at hdp
        obtain ⟨l', hl'⟩ := ih
        exact ⟨i :: l', .step hd (hdp ▸ hl')⟩
  intro i hi
  obtain ⟨l, hl⟩ := h.rooted i (hb.mem_indices.1 hi)
  exact lift _ l hl

theorem hung (hp : p ∈ a.indices) (hpc : ¬ a.Below p child) :
    b.LinkedAs (Function.update K p (K p ++ [child])) where
  chain := fun {i c} hic => by
    by_cases hip : i = p
    · subst hip
      rw [Function.update_self]
      exact h.hung_chain_self hb hc hfree hic
    · rw [Function.update_of_ne hip]
      exact h.hung_chain_of_ne hb hc hfree hic hip
  last := fun {i c} hic => by
    obtain ⟨d, hd, rfl⟩ := hb.get?_back hic
    by_cases hip : i = p
    · subst hip
      simp [Container.hung]
    · rw [Function.update_of_ne hip, ← h.last hd]
      simp [Container.hung, hip]
  listed := fun {i j} => by
    rw [hb.parent?_eq hc j]
    by_cases hip : i = p <;> by_cases hjc : j = child
    · simp [hip, hjc]
    · subst hip
      rw [Function.update_self, List.mem_append, List.mem_singleton, if_neg hjc, h.listed]
      simp [hjc]
    · rw [Function.update_of_ne hip, if_pos hjc, h.listed, hjc, hfree]
      simp [Ne.symm hip]
    · rw [Function.update_of_ne hip, if_neg hjc, h.listed]
  free := fun {i c} hic hnone => by
    obtain ⟨d, hd, rfl⟩ := hb.get?_back hic
    by_cases hi : i = child
    · simp [Container.hung, hi]
    · have hdp : d.parent = none := by simpa [Container.hung, hi] using hnone
      have hil : some i ≠ (K p).getLast? := fun hl => by
        have hip := h.listed.1 (h.last_ne hb hc hfree hl).1
        rw [parent?_of_get? hd, hdp] at hip
        cases hip
      simpa [Container.hung, hi, hil] using h.free hd hdp
  rooted := h.hung_rooted hb hc hfree hp hpc

end LinkedAs

theorem Linked.attach_eq (h : a.Linked) (child : Index) (hp : p ∈ a.indices) :
    ∃ b, a.attach child p = .ok b ∧ a.Hung b child p (a.kids p).getLast? := by
  obtain ⟨d, hd⟩ := Arena.mem_indices.1 hp
  have hlast : d.lastChild = (a.kids p).getLast? := LinkedAs.last h hd
  obtain ⟨b, hattach, hhung⟩ := attach_eq_ok hd fun i hi =>
    h.kids_subset p (List.mem_of_getLast? (hlast.symm.trans hi))
  rw [hlast] at hhung
  exact ⟨b, hattach, hhung⟩

theorem detach_of_parentless (hc : child ∈ a.indices) (hfree : a.parent? child = none) :
    a.detach child = .ok a := by
  obtain ⟨c, hcc⟩ := Arena.mem_indices.1 hc
  have hnone : c.parent = none := (parent?_of_get? hcc).symm.trans hfree
  simp only [detach, get_of_get? hcc, ok_bind, hnone]
  rfl

/-- A container without a parent can be linked under every container outside its tree. -/
theorem Linked.link_eq (h : a.Linked) (hc : child ∈ a.indices) (hp : p ∈ a.indices)
    (hfree : a.parent? child = none) :
    (a.Below p child ∧ a.link child p = (a, .ok false)) ∨
      (¬ a.Below p child ∧ ∃ b, a.link child p = (b, .ok true) ∧
        a.Hung b child p (a.kids p).getLast?) := by
  obtain ⟨found, hfound, hiff⟩ := h.related_eq_ok hc hp
  have hself : a.Below child p → a.Below p child := fun hb => by
    rw [hb.eq_of_parentless hfree]
    exact .refl a p
  by_cases hb : a.Below p child
  · rw [hiff.2 (.inl hb)] at hfound
    exact .inl ⟨hb, by rw [link, hfound]⟩
  · cases found with
    | true => exact absurd ((hiff.1 rfl).elim id hself) hb
    | false =>
      obtain ⟨b, hattach, hhung⟩ := h.attach_eq child hp
      exact .inr ⟨hb, b, by
        rw [link, hfound, detach_of_parentless hc hfree]
        simp only [hattach], hhung⟩

end Arena

end MailThread
