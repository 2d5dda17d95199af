import MailThread.Proofs.Forest.Listing
import MailThread.Proofs.Forest.Rows
import Mathlib.Data.List.Forall2

namespace MailThread

theorem forall₂_iff_eq_map {α β : Type} {R : α → β → Prop} {f : α → β} {l : List α} {ys : List β}
    (h : ∀ x ∈ l, ∀ y, R x y ↔ y = f x) : List.Forall₂ R l ys ↔ ys = l.map f := by
  induction l generalizing ys with
  | nil => exact List.forall₂_nil_left_iff
  | cons x l ih =>
    simp only [List.forall₂_cons_left_iff, h x List.mem_cons_self,
      ih fun z hz => h z (List.mem_cons_of_mem x hz), List.map_cons]
    constructor
    · rintro ⟨_, _, rfl, rfl, rfl⟩
      rfl
    · rintro rfl
      exact ⟨_, _, rfl, rfl, rfl⟩

theorem map_some_filterMap {α β : Type} (f : α → Option β) (l : List α) :
    (l.filterMap f).map some = (l.filter fun x => (f x).isSome).map f := by
  induction l with
  | nil => rfl
  | cons x l ih =>
    cases hx : f x <;> simp [hx, ih]

namespace Arena

variable {a : Arena} {i : Index} {l : List Index}

/-- The containers of the tree below one: the container itself and then the trees of its children, one
after another in the order of their links. -/
inductive Preorder (a : Arena) : Index → List Index → Prop
  | node {i : Index} {kids : List Index} {trees : List (List Index)} :
      a.children i = .ok kids → List.Forall₂ (Preorder a) kids trees →
        Preorder a i (i :: trees.flatten)

theorem Linked.preorder_iff (h : a.Linked) (hi : i ∈ a.indices) :
    a.Preorder i l ↔ l = a.walk id i := by
  induction i, hi using h.induction generalizing l with
  | step i hi ih =>
    have hkids : ∀ {trees}, List.Forall₂ a.Preorder (a.kids i) trees ↔
        trees = (a.kids i).map (a.walk id) :=
      forall₂_iff_eq_map fun k hk _ => ih k hk
    rw [h.walk_eq id_perm hi, List.flatMap_def]
    constructor
    · rintro ⟨hchildren, htrees⟩
      cases (h.children_eq hi).symm.trans hchildren
      rw [hkids.1 htrees]
      rfl
    · rintro rfl
      exact .node (h.children_eq hi) (hkids.2 rfl)

end Arena

namespace Forest

open Arena

variable {f : Forest} {o : ListingStyle} {i : Index} {row : MessageLine}

/-- The trees of a forest, root by root. -/
def trees (f : Forest) : List (List Index) := f.roots.map (f.arena.walk id)

theorem Sound.forall₂_preorder_iff (h : f.Sound) {ts : List (List Index)} :
    List.Forall₂ f.arena.Preorder f.roots ts ↔ ts = f.trees :=
  forall₂_iff_eq_map fun r hr _ => h.arena.linked.preorder_iff (h.roots r hr)

theorem Laid.order_eq_trees (h : f.Laid) :
    f.order = f.trees.flatten.filter fun i => (f.arena.message? i).isSome := by
  rw [h.order, visits, List.map_flatMap, List.flatMap_def]
  rfl

theorem Sound.mapM_messages (h : f.Sound) :
    ∃ blocks, f.roots.mapM f.messages = .ok blocks ∧
      blocks.flatten = f.trees.flatten.filterMap f.arena.message? := by
  refine ⟨_, mapM_eq_ok fun r hr => h.messages_eq_ok (h.roots r hr), ?_⟩
  rw [trees, List.filterMap_flatten, List.map_map]
  rfl

theorem Sound.filter_meets_empty (h : f.Sound) : f.roots.filter (f.meets .empty) = f.roots := by
  refine List.filter_eq_self.2 fun r hr => (h.meets_iff (h.roots r hr)).2 ?_
  obtain ⟨k, hk⟩ := h.members_nonempty (h.roots r hr)
  obtain ⟨e, he⟩ := h.exists_envelope hk
  exact ⟨k, hk, e, he, by simp [Subject.meets]⟩

/-- A row shows what the layout has set for its container. -/
theorem shown_of_messageLine? (hrow : f.messageLine? o i = some row) :
    row.container = i ∧ ∃ c, f.arena.get? i = some c ∧ c.message = some row.envelope ∧
      row.indentation = c.indentation ∧
      row.subject =
        if c.showsSubject then Subject.cut (subjectAt f.envelopes row.envelope) o.subjectWidth
        else .empty := by
  unfold messageLine? at hrow
  cases hc : f.arena.get? i with
  | none => simp [hc] at hrow
  | some c =>
    cases hm : c.message with
    | none => simp [hc, hm] at hrow
    | some m =>
      simp only [hc, hm, Option.bind_eq_bind, Option.bind_some, Option.pure_def,
        Option.some.injEq] at hrow
      subst hrow
      exact ⟨rfl, c, rfl, hm, rfl, rfl⟩

theorem Laid.indentation_of_messageLine? (h : f.Laid) (hrow : f.messageLine? o i = some row) :
    row.indentation = (f.arena.messagesAbove i).ncard := by
  obtain ⟨_, c, hc, _, hindentation, _⟩ := shown_of_messageLine? hrow
  rw [hindentation, ← h.indentation i (mem_indices_of_get? hc), indentationOf, hc]

theorem Sound.ncard_messagesAbove_lt (h : f.Sound) (hr : f.Harvested) (hl : f.Laid)
    (hi : i ∈ f.order) : (f.arena.messagesAbove i).ncard < f.order.length := by
  have hrows : insert i (f.arena.messagesAbove i) ⊆ (f.order.toFinset : Set Index) := by
    rintro j (rfl | ⟨_, _, hm⟩)
    · simpa using hi
    · simpa using (h.mem_order hr hl).2 (Option.ne_none_iff_exists'.1 hm)
  have hcard := Set.ncard_le_ncard hrows (Finset.finite_toSet _)
  rw [Set.ncard_insert_of_notMem (fun hself => hself.1 rfl) (f.arena.finite_messagesAbove i),
    Set.ncard_coe_finset] at hcard
  exact hcard.trans (List.toFinset_card_le _)

theorem Sound.exists_level (h : f.Sound) (hr : f.Harvested) (hl : f.Laid)
    (hrow : f.messageLine? o i = some row) :
    ∃ n : Nat, n < f.order.length ∧ row.indentation = n := by
  obtain ⟨_, c, hc, hm, _⟩ := shown_of_messageLine? hrow
  refine ⟨_, h.ncard_messagesAbove_lt hr hl ((h.mem_order hr hl).2 ⟨row.envelope, ?_⟩),
    hl.indentation_of_messageLine? hrow⟩
  rw [message?_of_get? hc, hm]

theorem Listed.exists_messageLine? {lines : List ConversationLine} {rows : List MessageLine}
    (h : f.Listed o lines rows) (hrow : row ∈ rows) : ∃ i, f.messageLine? o i = some row := by
  rw [h.blocks] at hrow
  obtain ⟨line, _, hrow⟩ := List.mem_flatMap.1 hrow
  obtain ⟨i, _, hi⟩ := List.mem_filterMap.1 hrow
  exact ⟨i, hi⟩

/-- A listing without any order and term has the rows of the trees. -/
theorem Sound.messageLines_plain (h : f.Sound) (hsort : o.sort = none) (hsub : o.subsort = none)
    (hterm : o.filter = .empty) :
    ∃ rows, f.messageLines o = .ok rows ∧ rows = f.trees.flatten.filterMap (f.messageLine? o) := by
  obtain ⟨rs, hsorts, hc⟩ := h.conversations_eq o
  rw [hsort, hterm, h.filter_meets_empty] at hsorts
  obtain rfl := hsorts.unsorted rfl
  refine ⟨_, h.messageLines_eq (List.Subset.refl _) hc, ?_⟩
  have harrange : f.arrange o.subsort = id := by
    rw [hsub]
    rfl
  rw [trees, List.filterMap_flatten, List.map_map, List.flatMap_def]
  exact congrArg List.flatten (List.map_congr_left fun r _ => by rw [block, harrange]; rfl)

end Forest

end MailThread
