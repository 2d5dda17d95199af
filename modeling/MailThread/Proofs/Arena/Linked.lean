import MailThread.Proofs.Arena.Ancestry

namespace MailThread

def Container.links (c : Container) :
    Option Index × Option Index × Option Index × Option Index :=
  (c.parent, c.firstChild, c.nextSibling, c.lastChild)

namespace Arena

variable {a b : Arena} {K : Index → List Index} {i j p : Index} {c : Container}

/-- The children of the container at `i`, in their order. -/
def kids (a : Arena) (i : Index) : List Index :=
  match a.get? i with
  | some c => (a.childTrail c).visited
  | none => []

/-- The links of the arena are those of the child lists `K`. -/
structure LinkedAs (a : Arena) (K : Index → List Index) : Prop where
  chain : ∀ {i c}, a.get? i = some c → a.Path (·.nextSibling) c.firstChild (K i)
  last : ∀ {i c}, a.get? i = some c → c.lastChild = (K i).getLast?
  listed : ∀ {i j}, j ∈ K i ↔ a.parent? j = some i
  free : ∀ {i c}, a.get? i = some c → c.parent = none → c.nextSibling = none
  rooted : a.Rooted

/-- The links of the arena fit together. -/
def Linked (a : Arena) : Prop := a.LinkedAs a.kids

namespace LinkedAs

variable (h : a.LinkedAs K)
include h

theorem eq_nil_of_notMem (hi : i ∉ a.indices) : K i = [] := by
  rw [List.eq_nil_iff_forall_not_mem]
  intro j hj
  exact hi (h.rooted.parent_mem (h.listed.1 hj))

theorem kids_eq : a.kids = K := by
  funext i
  unfold kids
  cases hc : a.get? i with
  | some c => simp only [childTrail_of_path (h.chain hc)]
  | none =>
    refine (h.eq_nil_of_notMem fun hi => ?_).symm
    obtain ⟨c, hc'⟩ := mem_indices.1 hi
    rw [hc] at hc'
    cases hc'

theorem linked : a.Linked := by
  unfold Linked
  rw [h.kids_eq]
  exact h

end LinkedAs

namespace Linked

variable (h : a.Linked)
include h

theorem rooted : a.Rooted := LinkedAs.rooted h

theorem mem_kids : j ∈ a.kids i ↔ a.parent? j = some i := LinkedAs.listed h

theorem childTrail_eq (hc : a.get? i = some c) : a.childTrail c = { visited := a.kids i } :=
  childTrail_of_path (LinkedAs.chain h hc)

theorem children_eq (hi : i ∈ a.indices) : a.children i = .ok (a.kids i) := by
  obtain ⟨c, hc⟩ := mem_indices.1 hi
  simp only [children, get_of_get? hc, ok_bind, h.childTrail_eq hc, Trail.toExcept]

theorem kids_of_notMem (hi : i ∉ a.indices) : a.kids i = [] := LinkedAs.eq_nil_of_notMem h hi

theorem nodup_kids (i : Index) : (a.kids i).Nodup := by
  by_cases hi : i ∈ a.indices
  · obtain ⟨c, hc⟩ := mem_indices.1 hi
    exact (LinkedAs.chain h hc).nodup
  · rw [h.kids_of_notMem hi]
    exact List.nodup_nil

theorem firstChild_eq (hc : a.get? i = some c) : c.firstChild = (a.kids i).head? := by
  have hp := LinkedAs.chain h hc
  generalize c.firstChild = start at hp ⊢
  generalize a.kids i = l at hp ⊢
  cases hp <;> rfl

theorem kids_subset (i : Index) : a.kids i ⊆ a.indices := fun _ hj =>
  mem_indices_of_parent? (h.mem_kids.1 hj)

end Linked

theorem get?_empty (i : Index) : ({} : Arena).get? i = none := by cases i <;> rfl

theorem kids_empty (i : Index) : ({} : Arena).kids i = [] := by rw [kids, get?_empty]

theorem notMem_indices_empty (i : Index) : i ∉ ({} : Arena).indices := fun hi => by
  obtain ⟨c, hc⟩ := mem_indices.1 hi
  rw [get?_empty] at hc
  cases hc

theorem linked_empty : Linked {} where
  chain := fun hc => absurd hc (by simp [get?_empty])
  last := fun hc => absurd hc (by simp [get?_empty])
  listed := by simp [kids_empty, parent?, get?_empty]
  free := fun hc => absurd hc (by simp [get?_empty])
  rooted := fun i hi => absurd hi (notMem_indices_empty i)

def SameLinks (a b : Arena) : Prop :=
  ∀ i, (b.get? i).map Container.links = (a.get? i).map Container.links

namespace SameLinks

theorem of_get?_eq (h : ∀ i, b.get? i = a.get? i) : a.SameLinks b := fun i => by rw [h i]

theorem trans {d : Arena} (h : a.SameLinks b) (h' : b.SameLinks d) : a.SameLinks d := fun i =>
  (h' i).trans (h i)

theorem update (a : Arena) (i : Index) {f : Container → Container}
    (hf : ∀ c, (f c).links = c.links) : a.SameLinks (a.update i f) := by
  intro j
  rw [get?_update]
  split
  · rw [Option.map_map]
    exact congrArg (fun g => (a.get? j).map g) (funext hf)
  · rfl

variable (h : a.SameLinks b)
include h

theorem map_eq {α : Type} (field : Option Index × Option Index × Option Index × Option Index → α)
    (i : Index) :
    (b.get? i).map (field ∘ Container.links) = (a.get? i).map (field ∘ Container.links) := by
  rw [← Option.map_map, h i, Option.map_map]

theorem get?_back (hc : b.get? i = some c) : ∃ d, a.get? i = some d ∧ d.links = c.links := by
  have hi := h i
  rw [hc] at hi
  exact Option.map_eq_some_iff.1 hi.symm

theorem parent?_eq (i : Index) : b.parent? i = a.parent? i := by
  have he : ∀ x : Arena, x.parent? i = ((x.get? i).map Container.links).bind Prod.fst := fun x => by
    rw [Option.bind_map]
    rfl
  rw [he, he, h i]

theorem mem_indices : i ∈ b.indices ↔ i ∈ a.indices := by
  have hi := congrArg Option.isSome (h i)
  simp only [Option.isSome_map] at hi
  rw [Arena.mem_indices, Arena.mem_indices, ← Option.isSome_iff_exists,
    ← Option.isSome_iff_exists, hi]

theorem indices_eq : b.indices = a.indices := by
  have hlt : ∀ n, n < b.size ↔ n < a.size := fun n => by
    rw [← slot_mem_indices, h.mem_indices, slot_mem_indices]
  have hsize : b.size = a.size := by
    have := hlt a.size
    have := hlt b.size
    omega
  rw [indices, hsize, indices]

theorem size_eq : b.size = a.size := by
  rw [← length_indices, ← length_indices, h.indices_eq]

theorem get?_eq_none (hi : b.get? i = none) : a.get? i = none := by
  have hlinks := h i
  rw [hi] at hlinks
  exact Option.map_eq_none_iff.1 hlinks.symm

theorem siblings_eq (bound : Nat) (start : Option Index) :
    b.siblings bound start = a.siblings bound start := by
  induction bound generalizing start with
  | zero => cases start <;> rfl
  | succ bound ih =>
    cases start with
    | none => rfl
    | some i =>
      cases hc : b.get? i with
      | none => simp only [siblings, hc, h.get?_eq_none hc, h.size_eq]
      | some c =>
        obtain ⟨d, hd, he⟩ := h.get?_back hc
        have hnext : d.nextSibling = c.nextSibling := congrArg (·.2.2.1) he
        simp only [siblings, hc, hd, hnext, ih]

theorem children_eq (i : Index) : b.children i = a.children i := by
  unfold children get
  cases hc : b.get? i with
  | none =>
    rw [h.get?_eq_none hc, h.size_eq]
    rfl
  | some c =>
    obtain ⟨d, hd, he⟩ := h.get?_back hc
    have hfirst : d.firstChild = c.firstChild := congrArg (·.2.1) he
    rw [hd]
    change (b.childTrail c).toExcept = (a.childTrail d).toExcept
    rw [childTrail, h.size_eq, h.siblings_eq, childTrail, hfirst]

theorem below : b.Below i j ↔ a.Below i j := Below.congr h.parent?_eq

theorem linkedAs (hl : a.LinkedAs K) : b.LinkedAs K where
  chain := fun {i c} hc => by
    obtain ⟨d, hd, he⟩ := h.get?_back hc
    rw [show c.firstChild = d.firstChild from congrArg (·.2.1) he.symm]
    exact (hl.chain hd).congr fun j _ => h.map_eq (·.2.2.1) j
  last := fun {i c} hc => by
    obtain ⟨d, hd, he⟩ := h.get?_back hc
    rw [show c.lastChild = d.lastChild from congrArg (·.2.2.2) he.symm]
    exact hl.last hd
  listed := fun {i j} => by rw [h.parent?_eq, hl.listed]
  free := fun {i c} hc hnone => by
    obtain ⟨d, hd, he⟩ := h.get?_back hc
    rw [show c.nextSibling = d.nextSibling from congrArg (·.2.2.1) he.symm]
    exact hl.free hd ((congrArg (·.1) he).trans hnone)
  rooted := fun i hi => by
    obtain ⟨l, hp⟩ := hl.rooted i (h.mem_indices.1 hi)
    exact ⟨l, hp.congr fun j _ => h.map_eq Prod.fst j⟩

theorem linked (hl : a.Linked) : b.Linked := (h.linkedAs hl).linked

theorem kids_eq (hl : a.Linked) : b.kids = a.kids := (h.linkedAs hl).kids_eq

end SameLinks

theorem ne_size_of_mem (hi : i ∈ a.indices) : i ≠ .slot a.size := by
  rintro rfl
  have := slot_mem_indices.1 hi
  omega

theorem parent?_append (a : Arena) (i : Index) : a.append.2.parent? i = a.parent? i := by
  unfold parent?
  rw [get?_append]
  split
  next hi => simp [hi]
  next => rfl

theorem LinkedAs.append (h : a.LinkedAs K) : a.append.2.LinkedAs K where
  chain := fun {i c} hc => by
    rw [get?_append] at hc
    split at hc
    next hi =>
      cases hc
      rw [h.eq_nil_of_notMem (i := i) fun hm => ne_size_of_mem hm hi]
      exact .stop
    next =>
      exact (h.chain hc).congr fun j hj => by
        rw [get?_append, if_neg (ne_size_of_mem ((h.chain hc).mem_indices hj))]
  last := fun {i c} hc => by
    rw [get?_append] at hc
    split at hc
    next hi =>
      cases hc
      rw [h.eq_nil_of_notMem (i := i) fun hm => ne_size_of_mem hm hi]
      rfl
    next => exact h.last hc
  listed := fun {i j} => by rw [parent?_append, h.listed]
  free := fun {i c} hc hnone => by
    rw [get?_append] at hc
    split at hc
    next =>
      cases hc
      rfl
    next => exact h.free hc hnone
  rooted := fun i hi => by
    obtain ⟨c, hc⟩ := Arena.mem_indices.1 hi
    have hc' := hc
    rw [get?_append] at hc'
    split at hc'
    next hi' =>
      cases hc'
      exact ⟨[i], .step hc .stop⟩
    next =>
      obtain ⟨l, hl⟩ := h.rooted i (mem_indices_of_get? hc')
      exact ⟨l, hl.congr fun j hj => by
        rw [get?_append, if_neg (ne_size_of_mem (hl.mem_indices hj))]⟩

end Arena

end MailThread
