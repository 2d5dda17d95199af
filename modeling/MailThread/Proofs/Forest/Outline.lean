import MailThread.Proofs.Arena.Linked
import Mathlib.Data.List.Nodup

namespace MailThread

namespace Trail

variable {α β γ : Type}

def append (t u : Trail α) : Trail α :=
  match t.fault with
  | some _ => t
  | none => { visited := t.visited ++ u.visited, fault := u.fault }

/-- Walks from each element in turn, up to the first walk that is cut short. -/
def concatMap (walk : β → Trail α) : List β → Trail α
  | [] => { visited := [] }
  | b :: bs => (walk b).append (concatMap walk bs)

def map (f : α → β) (t : Trail α) : Trail β := { visited := t.visited.map f, fault := t.fault }

variable {walk walk' : β → Trail α} {bs cs : List β} {t u v : Trail α} {x : α}

theorem append_nil (t : Trail α) : t.append { visited := [] } = t := by
  obtain ⟨_, fault⟩ := t
  cases fault <;> simp [append]

theorem append_assoc (t u v : Trail α) : (t.append u).append v = t.append (u.append v) := by
  obtain ⟨_, fault⟩ := t
  obtain ⟨_, fault'⟩ := u
  cases fault <;> cases fault' <;> simp [append]

theorem append_of_fault (h : t.fault ≠ none) : t.append u = t := by
  unfold append
  split
  next => rfl
  next hnone => exact absurd hnone h

theorem cons_append (x : α) (t u : Trail α) : (t.cons x).append u = (t.append u).cons x := by
  obtain ⟨_, fault⟩ := t
  cases fault <;> rfl

theorem toExcept_cons (x : α) (t : Trail α) :
    (t.cons x).toExcept = t.toExcept.map (x :: ·) := by
  obtain ⟨_, fault⟩ := t
  cases fault <;> rfl

theorem concatMap_append :
    concatMap walk (bs ++ cs) = (concatMap walk bs).append (concatMap walk cs) := by
  induction bs with
  | nil => rfl
  | cons b bs ih => rw [List.cons_append, concatMap, ih, concatMap, append_assoc]

theorem concatMap_map (g : γ → β) (l : List γ) :
    concatMap walk (l.map g) = concatMap (fun c => walk (g c)) l := by
  induction l with
  | nil => rfl
  | cons c l ih => rw [List.map_cons, concatMap, ih, concatMap]

theorem concatMap_congr (h : ∀ b ∈ bs, walk b = walk' b) :
    concatMap walk bs = concatMap walk' bs := by
  induction bs with
  | nil => rfl
  | cons b bs ih =>
    rw [concatMap, concatMap, h b List.mem_cons_self, ih fun c hc => h c (List.mem_cons_of_mem b hc)]

theorem concatMap_eq (h : ∀ b ∈ bs, (walk b).fault = none) :
    concatMap walk bs = { visited := bs.flatMap fun b => (walk b).visited } := by
  induction bs with
  | nil => rfl
  | cons b bs ih =>
    rw [concatMap, append, h b List.mem_cons_self, ih fun c hc => h c (List.mem_cons_of_mem b hc)]
    rfl

theorem map_cons (f : α → γ) (x : α) (t : Trail α) : (t.cons x).map f = (t.map f).cons (f x) := rfl

theorem map_append (f : α → γ) (t u : Trail α) :
    (t.append u).map f = (t.map f).append (u.map f) := by
  obtain ⟨_, fault⟩ := t
  cases fault <;> simp [append, map]

theorem map_concatMap (f : α → γ) (bs : List β) :
    (concatMap walk bs).map f = concatMap (fun b => (walk b).map f) bs := by
  induction bs with
  | nil => rfl
  | cons b bs ih => rw [concatMap, map_append, ih, concatMap]

end Trail

namespace Arena

/-- Visits the container at `i` and all below it, parents first, the children of each container in
the order that `arrange` gives. -/
def outlineFrom (a : Arena) (arrange : List Index → List Index) : Nat → Nat → Index → Trail Visit
  | 0, _, _ => { visited := [], fault := some .endless }
  | depth + 1, level, i =>
    match a.get? i, a.children i with
    | none, _ => { visited := [], fault := some (.noContainer i a.size) }
    | some _, .error f => { visited := [⟨i, level⟩], fault := some f }
    | some c, .ok kids =>
      let below := if c.message.isSome then level + 1 else level
      (Trail.concatMap (a.outlineFrom arrange depth below) (arrange kids)).cons ⟨i, level⟩

/-- The tree below `i`, in display order. No branch without repetition is longer than the arena. -/
def outline (a : Arena) (i : Index) (arrange : List Index → List Index := id) : Trail Visit :=
  a.outlineFrom arrange (a.size + 1) 0 i

variable {a : Arena} {i j k p : Index} {c : Container} {l kids : List Index} {depth n m : Nat}
  {fault : Fault} {arrange : List Index → List Index}

theorem outlineFrom_of_get? (hc : a.get? i = some c) (hk : a.children i = .ok kids) :
    a.outlineFrom arrange (depth + 1) n i =
      (Trail.concatMap (a.outlineFrom arrange depth (if c.message.isSome then n + 1 else n))
        (arrange kids)).cons ⟨i, n⟩ := by
  rw [outlineFrom, hc, hk]

/-- The level at which a walk starts makes no difference to its order. -/
theorem map_index_outlineFrom :
    (a.outlineFrom arrange depth n i).map Visit.index =
      (a.outlineFrom arrange depth m i).map Visit.index := by
  induction depth generalizing n m i with
  | zero => rfl
  | succ depth ih =>
    cases hc : a.get? i with
    | none => simp only [outlineFrom, hc]
    | some c =>
      cases hk : a.children i with
      | error fault =>
        simp only [outlineFrom, hc, hk]
        rfl
      | ok kids =>
        rw [outlineFrom_of_get? hc hk, outlineFrom_of_get? hc hk, Trail.map_cons, Trail.map_cons,
          Trail.map_concatMap, Trail.map_concatMap]
        exact congrArg (Trail.cons i) (Trail.concatMap_congr fun k _ => ih)

theorem Path.child (hl : a.Path (·.parent) (some p) l) (hp : a.parent? k = some p) :
    a.Path (·.parent) (some k) (k :: l) := by
  obtain ⟨c, hc, hcp⟩ := get?_of_parent? hp
  exact .step hc (hcp ▸ hl)

theorem Rooted.siblings_disjoint (h : a.Rooted) (hi : a.parent? i = some p)
    (hj : a.parent? j = some p) (hki : a.Below k i) (hkj : a.Below k j) : i = j := by
  have apart : ∀ {x y}, a.parent? x = some p → a.parent? y = some p → a.Below x y → x = y := by
    intro x y hx hy hxy
    rcases hxy.cases_head with rfl | ⟨q, hq, hqy⟩
    · rfl
    · cases hx.symm.trans hq
      exact absurd hqy (h.not_below_of_parent hy)
  rcases hki.total hkj with hij | hji
  · exact apart hi hj hij
  · exact (apart hj hi hji).symm

namespace Linked

variable (h : a.Linked)
include h

theorem below_iff_kids : a.Below j i ↔ j = i ∨ ∃ k ∈ a.kids i, a.Below j k := by
  constructor
  · intro hj
    rcases hj.cases_tail with rfl | ⟨k, hk, hki⟩
    · exact .inl rfl
    · exact .inr ⟨k, h.mem_kids.2 hki, hk⟩
  · rintro (rfl | ⟨k, hk, hj⟩)
    · exact .refl a j
    · exact hj.trans (.of_parent (h.mem_kids.1 hk))

theorem outlineFrom_succ (hc : a.get? i = some c) :
    a.outlineFrom arrange (depth + 1) n i =
      (Trail.concatMap
        (a.outlineFrom arrange depth (if c.message.isSome then n + 1 else n))
        (arrange (a.kids i))).cons ⟨i, n⟩ :=
  outlineFrom_of_get? hc (h.children_eq (mem_indices_of_get? hc))

/-- A walk that may go as deep as the tree is high visits each container of the tree once. -/
theorem outlineFrom_spec (harr : ∀ l, (arrange l).Perm l) (hl : a.Path (·.parent) (some i) l)
    (hd : a.size < depth + l.length) :
    (a.outlineFrom arrange depth n i).fault = none ∧
      ((a.outlineFrom arrange depth n i).visited.map Visit.index).Nodup ∧
      ∀ j, j ∈ (a.outlineFrom arrange depth n i).visited.map Visit.index ↔ a.Below j i := by
  -- what is left of the depth and the way back up exceed the size together
  induction depth generalizing n i l with
  | zero =>
    have := hl.length_le
    omega
  | succ depth ih =>
    obtain ⟨c, hc⟩ := mem_indices.1 (hl.mem_indices (hl.mem_iff_below.2 (.refl a i)))
    have hkid : ∀ {k}, k ∈ arrange (a.kids i) ↔ k ∈ a.kids i := (harr _).mem_iff
    have hsub : ∀ k ∈ arrange (a.kids i), ∀ n, _ := fun k hk n =>
      ih (i := k) (n := n) (hl.child (h.mem_kids.1 (hkid.1 hk))) (by
        rw [List.length_cons]
        omega)
    rw [h.outlineFrom_succ hc, Trail.concatMap_eq fun k hk => (hsub k hk _).1]
    simp only [Trail.cons, List.map_cons, List.map_flatMap, List.nodup_cons, List.mem_cons,
      List.mem_flatMap, true_and]
    refine ⟨⟨?_, List.nodup_flatMap.2 ⟨fun k hk => (hsub k hk _).2.1, ?_⟩⟩, fun j => ?_⟩
    · rintro ⟨k, hk, hik⟩
      rw [(hsub k hk _).2.2] at hik
      exact h.rooted.not_below_of_parent (h.mem_kids.1 (hkid.1 hk)) hik
    · -- the trees of two children have no container in common
      apply ((harr _).nodup_iff.2 (h.nodup_kids i)).imp_of_mem
      intro k k' hk hk' hne
      apply List.disjoint_left.2
      intro j hj hj'
      apply hne
      rw [(hsub _ hk _).2.2] at hj
      rw [(hsub _ hk' _).2.2] at hj'
      exact h.rooted.siblings_disjoint (h.mem_kids.1 (hkid.1 hk)) (h.mem_kids.1 (hkid.1 hk')) hj hj'
    · rw [h.below_iff_kids]
      refine or_congr_right ⟨?_, ?_⟩
      · rintro ⟨k, hk, hj⟩
        exact ⟨k, hkid.1 hk, ((hsub k hk _).2.2 j).1 hj⟩
      · rintro ⟨k, hk, hj⟩
        exact ⟨k, hkid.2 hk, ((hsub k (hkid.2 hk) _).2.2 j).2 hj⟩

variable (hi : i ∈ a.indices) (harr : ∀ l, (arrange l).Perm l)
include hi harr

theorem outline_spec :
    (a.outline i arrange).fault = none ∧ ((a.outline i arrange).visited.map Visit.index).Nodup ∧
      ∀ j, j ∈ (a.outline i arrange).visited.map Visit.index ↔ a.Below j i := by
  obtain ⟨l, hl⟩ := h.rooted i hi
  exact h.outlineFrom_spec harr hl (by omega)

end Linked

end Arena

end MailThread
