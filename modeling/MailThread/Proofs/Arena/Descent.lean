import MailThread.Proofs.Arena.Search
import Mathlib

namespace MailThread.Arena

variable {a : Arena} {i j k p : Index}

/-- The children of `p` as its pointers give them. -/
inductive Child (a : Arena) (p : Index) : Index → Prop
  | first {c : Container} {k : Index} : a.get? p = some c → c.firstChild = some k → Child a p k
  | next {c : Container} {j k : Index} :
      Child a p j → a.get? j = some c → c.nextSibling = some k → Child a p k

theorem Path.forall_child {start : Option Index} {l : List Index}
    (h : a.Path (·.nextSibling) start l) (hstart : ∀ k, start = some k → a.Child p k) :
    ∀ k ∈ l, a.Child p k := by
  induction h with
  | stop => exact fun k hk => absurd hk List.not_mem_nil
  | @step i c l hc _ ih =>
    have hi : a.Child p i := hstart i rfl
    intro k hk
    rcases List.mem_cons.1 hk with rfl | hk
    · exact hi
    · exact ih (fun k hk => .next hi hc hk) k hk

namespace Chained

variable (h : a.Chained)
include h

theorem mem_kids_of_child (hk : a.Child p k) : k ∈ a.kids p := by
  induction hk with
  | @first c k hc hfirst =>
    have hpath := h.path hc
    rw [hfirst] at hpath
    generalize a.kids p = l at hpath
    cases hpath
    exact List.mem_cons_self
  | @next c j k _ hc hnext ih =>
    cases hp : a.get? p with
    | none => simp [kids, hp] at ih
    | some d =>
      obtain ⟨l, hl, _, hsub⟩ := (h.path hp).of_mem ih
      cases hl with
      | step hc' htail =>
        cases hc'.symm.trans hc
        rw [hnext] at htail
        cases htail
        exact hsub List.mem_cons_self

theorem child_iff : a.Child p k ↔ k ∈ a.kids p := by
  refine ⟨h.mem_kids_of_child, fun hk => ?_⟩
  cases hc : a.get? p with
  | none => simp [kids, hc] at hk
  | some c => exact (h.path hc).forall_child (fun _ hfirst => .first hc hfirst) k hk

end Chained

/-- The test whether `node` is `ancestor` or lies below it comes to its end wherever the child lists
end, also where they lead in a circle or share a child. It is true for `ancestor` itself and for what
is reached from it by one or more steps to children, and for nothing else. -/
theorem isBelow_iff_descends (h : a.Chained) (node : Index) {ancestor : Index}
    (ha : ancestor ∈ a.indices) :
    ∃ found, a.isBelow node ancestor = .ok found ∧
      (found = true ↔ node = ancestor ∨ Relation.TransGen a.Child ancestor node) := by
  obtain ⟨found, hfound, hiff⟩ := isBelow_eq_ok h node ha
  refine ⟨found, hfound, hiff.trans ?_⟩
  have hstep : (fun x y => y ∈ a.kids x) = a.Child := by
    funext x y
    exact propext h.child_iff.symm
  rw [Reach, hstep, Relation.reflTransGen_iff_eq_or_transGen]

/-- Container 2 is its own child and that of 1, and 3 has its sibling 1 and itself as children. -/
def tangled : Arena where
  containers := #[{ firstChild := some (.slot 1) },
    { firstChild := some (.slot 2), nextSibling := some (.slot 3) },
    { firstChild := some (.slot 2) }, { firstChild := some (.slot 1) }]

/-- From 3 the search comes to 2 by way of 1, but from 1 it does not go on to the sibling 3. -/
theorem isBelow_iff_descends_tangled :
    tangled.Chained ∧
      tangled.isBelow (.slot 2) (.slot 3) = .ok true ∧
      Relation.TransGen tangled.Child (.slot 3) (.slot 2) ∧
      tangled.isBelow (.slot 3) (.slot 1) = .ok false ∧
      ¬ Relation.TransGen tangled.Child (.slot 1) (.slot 3) := by
  have hchained : tangled.Chained := by
    intro i c hc
    have hi : i ∈ [Index.slot 0, .slot 1, .slot 2, .slot 3] := mem_indices_of_get? hc
    simp only [List.mem_cons, List.not_mem_nil, or_false] at hi
    rcases hi with rfl | rfl | rfl | rfl <;> cases hc
    · exact ⟨[.slot 1, .slot 3], .step rfl (.step rfl .stop)⟩
    · exact ⟨[.slot 2], .step rfl .stop⟩
    · exact ⟨[.slot 2], .step rfl .stop⟩
    · exact ⟨[.slot 1, .slot 3], .step rfl (.step rfl .stop)⟩
  have htrue : tangled.isBelow (.slot 2) (.slot 3) = .ok true := by cbv
  have hfalse : tangled.isBelow (.slot 3) (.slot 1) = .ok false := by cbv
  obtain ⟨_, hfound, hiff⟩ := isBelow_iff_descends hchained (.slot 2)
    (slot_mem_indices.2 (by decide) : .slot 3 ∈ tangled.indices)
  obtain ⟨_, hfound', hiff'⟩ := isBelow_iff_descends hchained (.slot 3)
    (slot_mem_indices.2 (by decide) : .slot 1 ∈ tangled.indices)
  cases htrue.symm.trans hfound
  cases hfalse.symm.trans hfound'
  refine ⟨hchained, htrue, (hiff.1 rfl).resolve_left (by decide), hfalse, fun hreach => ?_⟩
  exact Bool.false_ne_true (hiff'.2 (.inr hreach))

end MailThread.Arena
