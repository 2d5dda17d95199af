import MailThread.Proofs.Arena.Date
import MailThread.Proofs.Forest.Outline
import Mathlib.Data.Set.Card

namespace MailThread

namespace Arena

variable {a : Arena} {i j p : Index} {c : Container} {l : List Index} {depth n : Nat} {v : Visit}
  {arrange : List Index → List Index}

theorem id_perm (l : List Index) : (id l).Perm l := .refl l

/-- The number of levels that a container takes up: a placeholder takes up none. -/
def ownLevel (a : Arena) (i : Index) : Nat := if (a.message? i).isSome then 1 else 0

/-- The visits of the walk over the tree below `i` that starts at level `n`. -/
def visits (a : Arena) (arrange : List Index → List Index) (n : Nat) (i : Index) : List Visit :=
  (a.outlineFrom arrange (a.size + 1) n i).visited

/-- The containers of the tree below `i`, in the order of a walk. -/
def walk (a : Arena) (arrange : List Index → List Index) (i : Index) : List Index :=
  (a.visits arrange 0 i).map Visit.index

/-- The containers with a message on the way up from `i`, `i` itself aside. -/
def messagesAbove (a : Arena) (i : Index) : Set Index :=
  { j | j ≠ i ∧ a.Below i j ∧ a.message? j ≠ none }

theorem messagesAbove_of_parentless (hi : a.parent? i = none) : a.messagesAbove i = ∅ := by
  apply Set.eq_empty_iff_forall_notMem.2
  rintro j ⟨hne, hij, _⟩
  exact hne (hij.eq_of_parentless hi).symm

theorem finite_messagesAbove (a : Arena) (i : Index) : (a.messagesAbove i).Finite := by
  apply a.indices.finite_toSet.subset
  rintro j ⟨_, _, hm⟩
  obtain ⟨m, hm⟩ := Option.ne_none_iff_exists'.1 hm
  exact mem_indices_of_message? hm

namespace Rooted

variable (h : a.Rooted)
include h

theorem messagesAbove_of_parent (hp : a.parent? i = some p) :
    a.messagesAbove i = { j | j = p ∧ a.message? j ≠ none } ∪ a.messagesAbove p := by
  ext j
  constructor
  · rintro ⟨hne, hij, hm⟩
    obtain ⟨q, hq, hqj⟩ := hij.cases_head.resolve_left hne.symm
    cases hp.symm.trans hq
    by_cases hjp : j = p
    · exact .inl ⟨hjp, hm⟩
    · exact .inr ⟨hjp, hqj, hm⟩
  · have hne : ∀ {j}, a.Below p j → j ≠ i := by
      rintro j hpj rfl
      exact h.not_below_of_parent hp hpj
    rintro (⟨rfl, hm⟩ | ⟨_, hpj, hm⟩)
    · exact ⟨hne (.refl a j), .of_parent hp, hm⟩
    · exact ⟨hne hpj, (Below.of_parent hp).trans hpj, hm⟩

theorem ncard_messagesAbove (hp : a.parent? i = some p) :
    (a.messagesAbove i).ncard = (a.messagesAbove p).ncard + a.ownLevel p := by
  rw [h.messagesAbove_of_parent hp, ownLevel]
  cases hm : a.message? p with
  | none =>
    have hempty : { j | j = p ∧ a.message? j ≠ none } = (∅ : Set Index) := by
      apply Set.eq_empty_iff_forall_notMem.2
      rintro j ⟨rfl, hj⟩
      exact hj hm
    simp [hempty]
  | some m =>
    have hsingle : { j | j = p ∧ a.message? j ≠ none } = ({p} : Set Index) := by
      ext j
      simp only [Set.mem_ofPred_eq, Set.mem_singleton_iff, and_iff_left_iff_imp]
      rintro rfl
      simp [hm]
    rw [hsingle, Set.singleton_union, Set.ncard_insert_of_notMem (fun hp' => hp'.1 rfl)
      (a.finite_messagesAbove p)]
    rfl

end Rooted

namespace Linked

variable (h : a.Linked)
include h

/-- What holds of a container as soon as it holds of its children holds of all containers. -/
theorem induction {motive : (i : Index) → i ∈ a.indices → Prop}
    (step : ∀ i hi, (∀ k (hk : k ∈ a.kids i), motive k (h.kids_subset i hk)) → motive i hi)
    (i : Index) (hi : i ∈ a.indices) : motive i hi := by
  -- what is left of the height and the way back up exceed the size together
  have hdown : ∀ (height : Nat) (i : Index) (hi : i ∈ a.indices) (l : List Index),
      a.Path (·.parent) (some i) l → a.size < height + l.length → motive i hi := by
    intro height
    induction height with
    | zero =>
      intro i hi l hl hsize
      have := hl.length_le
      omega
    | succ height ih =>
      intro i hi l hl hsize
      refine step i hi fun k hk => ih k _ _ (hl.child (h.mem_kids.1 hk)) ?_
      rw [List.length_cons]
      omega
  obtain ⟨l, hl⟩ := h.rooted i hi
  exact hdown (a.size + 1) i hi l hl (by omega)

theorem outlineFrom_step (hc : a.get? i = some c) :
    a.outlineFrom arrange (depth + 1) n i =
      (Trail.concatMap (a.outlineFrom arrange depth (n + a.ownLevel i)) (arrange (a.kids i))).cons
        ⟨i, n⟩ := by
  rw [h.outlineFrom_succ hc, ownLevel, message?_of_get? hc]
  cases c.message <;> rfl

variable (harr : ∀ l, (arrange l).Perm l)
include harr

/-- A walk that may go deep enough does not depend on how deep it may go. -/
theorem outlineFrom_congr {depth' : Nat} (hl : a.Path (·.parent) (some i) l)
    (hd : a.size < depth + l.length) (hd' : a.size < depth' + l.length) :
    a.outlineFrom arrange depth n i = a.outlineFrom arrange depth' n i := by
  induction depth generalizing depth' n i l with
  | zero =>
    have := hl.length_le
    omega
  | succ depth ih =>
    cases depth' with
    | zero =>
      have := hl.length_le
      omega
    | succ depth' =>
      obtain ⟨c, hc⟩ := mem_indices.1 (hl.mem_indices (hl.mem_iff_below.2 (.refl a i)))
      rw [h.outlineFrom_step hc, h.outlineFrom_step hc]
      refine congrArg (Trail.cons _) (Trail.concatMap_congr fun k hk => ?_)
      have hk' := hl.child (h.mem_kids.1 ((harr _).mem_iff.1 hk))
      exact ih hk' (by rw [List.length_cons]; omega) (by rw [List.length_cons]; omega)

/-- A walk visits a container and then its children, one after another. -/
theorem visits_eq (hi : i ∈ a.indices) :
    a.visits arrange n i =
      ⟨i, n⟩ :: (arrange (a.kids i)).flatMap (a.visits arrange (n + a.ownLevel i)) := by
  obtain ⟨l, hl⟩ := h.rooted i hi
  obtain ⟨c, hc⟩ := mem_indices.1 hi
  have hkids : ∀ k ∈ arrange (a.kids i), ∀ m,
      a.outlineFrom arrange a.size m k = { visited := a.visits arrange m k } := by
    intro k hk m
    have hk' := hl.child (h.mem_kids.1 ((harr _).mem_iff.1 hk))
    have hlong : 0 < l.length := by cases hl; simp
    -- below a child one step less of depth is enough
    have hdeep : a.size < a.size + (k :: l).length := by
      rw [List.length_cons]
      omega
    have hdeeper : a.size < a.size + 1 + (k :: l).length := by omega
    have hfault : (a.outlineFrom arrange (a.size + 1) m k).fault = none :=
      (h.outlineFrom_spec harr hk' hdeeper).1
    rw [h.outlineFrom_congr harr hk' hdeep hdeeper, visits, ← hfault]
  rw [visits, h.outlineFrom_step hc, Trail.concatMap_congr fun k hk => hkids k hk _,
    Trail.concatMap_eq fun k _ => rfl]
  rfl

variable (hi : i ∈ a.indices)
include hi

theorem mem_visits :
    v ∈ a.visits arrange n i ↔
      v = ⟨i, n⟩ ∨ ∃ k ∈ a.kids i, v ∈ a.visits arrange (n + a.ownLevel i) k := by
  simp only [h.visits_eq harr hi, List.mem_cons, List.mem_flatMap, (harr _).mem_iff]

theorem le_level (hv : v ∈ a.visits arrange n i) : n ≤ v.level := by
  induction i, hi using h.induction generalizing n with
  | step i hi ih =>
    rcases (h.mem_visits harr hi).1 hv with rfl | ⟨k, hk, hv⟩
    · exact le_rfl
    · exact (Nat.le_add_right n _).trans (ih k hk hv)

theorem level_add (hv : v ∈ a.visits arrange n i) :
    v.level + (a.messagesAbove i).ncard = n + (a.messagesAbove v.index).ncard := by
  induction i, hi using h.induction generalizing n with
  | step i hi ih =>
    rcases (h.mem_visits harr hi).1 hv with rfl | ⟨k, hk, hv⟩
    · rfl
    · have hk' := ih k hk hv
      rw [h.rooted.ncard_messagesAbove (h.mem_kids.1 hk)] at hk'
      omega

theorem eq_of_index_eq (hv : v ∈ a.visits arrange n i) (hvi : v.index = i) : v = ⟨i, n⟩ := by
  have hlevel := h.level_add harr hi hv
  rw [hvi] at hlevel
  obtain ⟨index, level⟩ := v
  rw [← hvi, Visit.mk.injEq]
  exact ⟨rfl, by simp only at hlevel; omega⟩

/-- The visit of a parent stands before that of a child, and those between them stand as far in as the
child at least. -/
theorem exists_parent_visit (hv : v ∈ a.visits arrange n i) (hne : v.index ≠ i) :
    ∃ p m before between behind, a.parent? v.index = some p ∧ v.level = m + a.ownLevel p ∧
      a.visits arrange n i = before ++ ⟨p, m⟩ :: between ++ v :: behind ∧
      ∀ u ∈ between, v.level ≤ u.level := by
  induction i, hi using h.induction generalizing n with
  | step i hi ih =>
    obtain ⟨k, hk, hv⟩ := ((h.mem_visits harr hi).1 hv).resolve_left fun hvi => hne (hvi ▸ rfl)
    have hki := h.kids_subset i hk
    obtain ⟨ks, ks', hsplit⟩ := List.append_of_mem ((harr _).mem_iff.2 hk)
    rw [h.visits_eq harr hi, hsplit, List.flatMap_append, List.flatMap_cons]
    by_cases hvk : v.index = k
    · -- a child: what stands between are the trees of its elder siblings
      have hvk' := h.eq_of_index_eq harr hki hv hvk
      have htree := h.visits_eq harr hki (n := n + a.ownLevel i)
      rw [← hvk'] at htree
      refine ⟨i, n, [], _, _, hvk ▸ h.mem_kids.1 hk, by rw [hvk'], by rw [htree]; simp; rfl,
        fun u hu => ?_⟩
      obtain ⟨k', hk', hu⟩ := List.mem_flatMap.1 hu
      rw [hvk']
      refine h.le_level harr (h.kids_subset i ((harr _).mem_iff.1 ?_)) hu
      rw [hsplit]
      exact List.mem_append_left _ hk'
    · obtain ⟨p, m, before, between, behind, hp, hlevel, htree, hbetween⟩ := ih k hk hv hvk
      refine ⟨p, m, ⟨i, n⟩ :: ks.flatMap (a.visits arrange (n + a.ownLevel i)) ++ before, between,
        behind ++ ks'.flatMap (a.visits arrange (n + a.ownLevel i)), hp, hlevel, ?_, hbetween⟩
      rw [htree]
      simp

theorem map_index_visits (n : Nat) : (a.visits arrange n i).map Visit.index = a.walk arrange i := by
  have hlevels : ∀ n m, (a.visits arrange n i).map Visit.index =
      (a.visits arrange m i).map Visit.index := by
    induction i, hi using h.induction with
    | step i hi ih =>
      intro n m
      rw [h.visits_eq harr hi, h.visits_eq harr hi, List.map_cons, List.map_cons, List.map_flatMap,
        List.map_flatMap]
      exact congrArg _ (List.flatMap_congr fun k hk => ih k ((harr _).mem_iff.1 hk) _ _)
  exact hlevels n 0

theorem walk_eq : a.walk arrange i = i :: (arrange (a.kids i)).flatMap (a.walk arrange) := by
  rw [walk, h.visits_eq harr hi, List.map_cons, List.map_flatMap]
  refine congrArg _ (List.flatMap_congr fun k hk => ?_)
  exact h.map_index_visits harr (h.kids_subset i ((harr _).mem_iff.1 hk)) _

theorem nodup_walk : (a.walk arrange i).Nodup := (h.outline_spec hi harr).2.1

theorem mem_walk : j ∈ a.walk arrange i ↔ a.Below j i := (h.outline_spec hi harr).2.2 j

theorem walk_perm {arrange' : List Index → List Index} (harr' : ∀ l, (arrange' l).Perm l) :
    (a.walk arrange i).Perm (a.walk arrange' i) := by
  rw [List.perm_ext_iff_of_nodup (h.nodup_walk harr hi) (h.nodup_walk harr' hi)]
  intro j
  rw [h.mem_walk harr hi, h.mem_walk harr' hi]

theorem walk_infix (hj : a.Below j i) : a.walk arrange j <:+: a.walk arrange i := by
  induction i, hi using h.induction with
  | step i hi ih =>
    rcases h.below_iff_kids.1 hj with rfl | ⟨k, hk, hj⟩
    · exact List.infix_rfl
    · obtain ⟨ks, ks', hsplit⟩ := List.append_of_mem ((harr _).mem_iff.2 hk)
      rw [h.walk_eq harr hi, hsplit, List.flatMap_append, List.flatMap_cons]
      refine (ih k hk hj).trans ⟨i :: ks.flatMap (a.walk arrange), ks'.flatMap (a.walk arrange), ?_⟩
      simp

end Linked

end Arena

end MailThread
