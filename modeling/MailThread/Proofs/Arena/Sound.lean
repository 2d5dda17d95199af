import MailThread.Proofs.Arena.Admission
import Mathlib.Order.Bounds.Basic

namespace MailThread.Arena

variable {a b : Arena} {es : Array Envelope} {i j p : Index} {k : Nat} {e : Envelope} {d : Rat}

/-- The container `i` holds the envelope `e`, which stands at position `k`. -/
def Holds (a : Arena) (es : Array Envelope) (i : Index) (k : Nat) (e : Envelope) : Prop :=
  a.message? i = some (.slot k) ∧ es[k]? = some e

/-- The dates of the messages in the tree below `i`. -/
def datesBelow (a : Arena) (es : Array Envelope) (i : Index) : Set Rat :=
  { d | ∃ j k e, a.Below j i ∧ a.Holds es j k e ∧ e.date = d }

/-- `i` and `j` hold messages, and the one in `i` stands first in the mailbox. -/
def Earlier (a : Arena) (i j : Index) : Prop :=
  ∃ k l, a.message? i = some (.slot k) ∧ a.message? j = some (.slot l) ∧ k < l

/-- What holds of an arena and a mailbox at any time: placeholders have replies, containers and
envelopes point at one another, only the id of its envelope names a container that holds one, and the
date of a container is that of the latest message in its tree. -/
structure Sound (a : Arena) (es : Array Envelope) : Prop where
  ready : a.Ready
  awaited : ∀ i ∈ a.indices, a.message? i = none → a.kids i ≠ []
  bound : ∀ {i m}, a.message? i = some m → ∃ k, m = .slot k ∧ k < es.size
  pointed : ∀ {i k e}, es[k]? = some e → (e.thread = some i ↔ a.message? i = some (.slot k))
  owned : ∀ {i k e}, a.Holds es i k e → ∀ x, a.find? x = some i ↔ x = e.messageId ∧ x ≠ .empty
  latest : ∀ i ∈ a.indices, IsGreatest (a.datesBelow es i) (a.dateOf i)
  ordered : ∀ i, (a.kids i).Pairwise a.Earlier

namespace Sound

variable (h : a.Sound es)
include h

theorem linked : a.Linked := h.ready.linked

theorem rooted : a.Rooted := h.ready.linked.rooted

theorem lt_size (hm : a.message? i = some (.slot k)) : k < es.size := by
  obtain ⟨_, hk, hlt⟩ := h.bound hm
  cases hk
  exact hlt

theorem holds_of_slot (hm : a.message? i = some (.slot k)) : ∃ e, a.Holds es i k e :=
  ⟨_, hm, Array.getElem?_eq_getElem (h.lt_size hm)⟩

theorem holds_of_message? {m : Index} (hm : a.message? i = some m) :
    ∃ k e, m = .slot k ∧ a.Holds es i k e := by
  obtain ⟨k, rfl, _⟩ := h.bound hm
  obtain ⟨e, hk⟩ := h.holds_of_slot hm
  exact ⟨k, e, rfl, hk⟩

theorem holds_of_parent (hp : a.parent? i = some p) : ∃ k e, a.Holds es i k e := by
  cases hm : a.message? i with
  | none =>
    rw [h.ready.topmost i hm] at hp
    cases hp
  | some m =>
    obtain ⟨k, e, _, hk⟩ := h.holds_of_message? hm
    exact ⟨k, e, hk⟩

theorem holder_unique (hi : a.message? i = some (.slot k)) (hj : a.message? j = some (.slot k)) :
    i = j := by
  obtain ⟨e, _, he⟩ := h.holds_of_slot hi
  exact Option.some.inj (((h.pointed he).2 hi).symm.trans ((h.pointed he).2 hj))

theorem holds_push {e' : Envelope} : a.Holds (es.push e) i k e' ↔ a.Holds es i k e' := by
  unfold Holds
  apply and_congr_right
  intro hm
  rw [Array.getElem?_push, if_neg (h.lt_size hm).ne]

theorem push_unheld (ht : e.thread = none) : a.Sound (es.push e) where
  ready := h.ready
  awaited := h.awaited
  bound := fun hm => by
    obtain ⟨k, rfl, hk⟩ := h.bound hm
    exact ⟨k, rfl, by rw [Array.size_push]; omega⟩
  pointed := fun {i k e'} he => by
    rw [Array.getElem?_push] at he
    split at he
    next hk =>
      cases he
      rw [ht]
      exact ⟨nofun, fun hm => absurd hk (h.lt_size hm).ne⟩
    next => exact h.pointed he
  owned := fun hj => h.owned (h.holds_push.1 hj)
  latest := fun j hj => by
    unfold datesBelow
    simp only [h.holds_push]
    exact h.latest j hj
  ordered := h.ordered

end Sound

theorem sound_empty : Sound {} #[] := by
  have hno := notMem_indices_empty
  have hnamed : Named {} :=
    ⟨List.nodup_nil, List.nodup_nil, fun _ he => absurd he List.not_mem_nil, rfl⟩
  exact
    { ready := ⟨linked_empty, hnamed, fun i _ => parent?_of_notMem (hno i)⟩
      awaited := fun i hi => absurd hi (hno i)
      bound := fun hm => absurd (mem_indices_of_message? hm) (hno _)
      pointed := fun he => by cases he
      owned := fun hj => by cases hj.2
      latest := fun i hi => absurd hi (hno i)
      ordered := fun i => by
        rw [kids_empty]
        exact .nil }

namespace Admits

variable {id : Text} {parentId : Option Text} {above : Option Index}

theorem unheld (hs : a.Admits b id (.slot es.size) d parentId i above)
    (hw : ∀ j, a.find? id = some j → a.message? j = none) : a.message? i = none := by
  by_cases hi : i ∈ a.indices
  · exact hw i (hs.known hi)
  · cases hm : a.message? i with
    | none => rfl
    | some m => exact absurd (mem_indices_of_message? hm) hi

theorem above_ne (hs : a.Admits b id (.slot es.size) d parentId i above) (hp : above = some p) :
    ¬ a.Below p i := by
  cases hpar : parentId with
  | none =>
    rw [hs.free hpar] at hp
    cases hp
  | some x =>
    obtain ⟨q, _, hq⟩ := hs.target hpar
    rcases hq with ⟨_, hq⟩ | ⟨hqi, hq⟩
    · rw [hq] at hp
      cases hp
    · cases hq.symm.trans hp
      exact hqi

/-- What lies below what, once the message is in. -/
theorem below_iff (hs : a.Admits b id (.slot es.size) d parentId i above)
    (hfree : a.parent? i = none) {x y : Index} :
    b.Below x y ↔ a.Below x y ∨ (a.Below x i ∧ ∃ p, above = some p ∧ a.Below p y) := by
  cases above with
  | none =>
    have hparent : ∀ z, b.parent? z = a.parent? z := fun z => by
      rw [hs.parent?]
      split
      next hz => rw [hz, hfree]
      next => rfl
    simp [Below.congr hparent]
  | some p => simp [below_hang hfree hs.parent?]

theorem holds_iff (hs : a.Admits b id (.slot es.size) d parentId i above) (h : a.Sound es)
    (hi : a.message? i = none) {e' : Envelope} :
    b.Holds (es.push e) j k e' ↔ a.Holds es j k e' ∨ (j = i ∧ k = es.size ∧ e' = e) := by
  unfold Holds
  rw [hs.message?, Array.getElem?_push]
  by_cases hj : j = i
  · subst hj
    simp only [if_true, Option.some.injEq, Index.slot.injEq, hi, true_and, reduceCtorEq, false_and,
      false_or]
    constructor
    · rintro ⟨rfl, he⟩
      simp only [if_true, Option.some.injEq] at he
      exact ⟨rfl, he.symm⟩
    · rintro ⟨rfl, rfl⟩
      simp
  · simp only [hj, if_false, false_and, or_false]
    apply and_congr_right
    intro hm
    rw [if_neg (h.lt_size hm).ne]

/-- The messages below a container: those that were there, and those that come in with `i`. -/
theorem datesBelow_eq (hs : a.Admits b id (.slot es.size) e.date parentId i above) (h : a.Sound es)
    (hi : a.message? i = none) (z : Index) :
    b.datesBelow (es.push e) z = a.datesBelow es z ∪
      { d | (z = i ∨ ∃ p, above = some p ∧ a.Below p z) ∧
        (d = e.date ∨ d ∈ a.datesBelow es i) } := by
  have hfree : a.parent? i = none := h.ready.topmost i hi
  ext d
  constructor
  · rintro ⟨j, k, e', hj, hk, rfl⟩
    rcases (hs.holds_iff h hi).1 hk with hk | ⟨rfl, rfl, rfl⟩
    · rcases (hs.below_iff hfree).1 hj with hj | ⟨hj, hp⟩
      · exact .inl ⟨j, k, e', hj, hk, rfl⟩
      · exact .inr ⟨.inr hp, .inr ⟨j, k, e', hj, hk, rfl⟩⟩
    · refine .inr ⟨?_, .inl rfl⟩
      rcases (hs.below_iff hfree).1 hj with hj | ⟨_, hp⟩
      · exact .inl (hj.eq_of_parentless hfree).symm
      · exact .inr hp
  · have hz : (z = i ∨ ∃ p, above = some p ∧ a.Below p z) → ∀ {j}, a.Below j i → b.Below j z := by
      rintro (rfl | hp) j hj
      · exact (hs.below_iff hfree).2 (.inl hj)
      · exact (hs.below_iff hfree).2 (.inr ⟨hj, hp⟩)
    rintro (⟨j, k, e', hj, hk, rfl⟩ | ⟨hp, rfl | ⟨j, k, e', hj, hk, rfl⟩⟩)
    · exact ⟨j, k, e', (hs.below_iff hfree).2 (.inl hj), (hs.holds_iff h hi).2 (.inl hk), rfl⟩
    · exact ⟨i, es.size, e, hz hp (.refl a i),
        (hs.holds_iff h hi).2 (.inr ⟨rfl, rfl, rfl⟩), rfl⟩
    · exact ⟨j, k, e', hz hp hj, (hs.holds_iff h hi).2 (.inl hk), rfl⟩

theorem datesBelow_of_notMem (h : a.Sound es) (hi : i ∉ a.indices) : a.datesBelow es i = ∅ := by
  apply Set.eq_empty_iff_forall_notMem.2
  rintro d ⟨j, k, e, hj, hk, _⟩
  have hji : j ∈ a.indices := mem_indices_of_message? hk.1
  exact hi (h.rooted.mem_of_below hji hj)

theorem isGreatest_own (hs : a.Admits b id (.slot es.size) e.date parentId i above)
    (h : a.Sound es) (hi : a.message? i = none) :
    IsGreatest { d | d = e.date ∨ d ∈ a.datesBelow es i } (b.dateOf i) := by
  have hsplit : { d | d = e.date ∨ d ∈ a.datesBelow es i } = {e.date} ∪ a.datesBelow es i := rfl
  rw [hsplit, hs.own]
  by_cases hmem : i ∈ a.indices
  · -- a placeholder has children, and so its date counts
    rw [if_neg (h.awaited i hmem hi), max_comm]
    exact isGreatest_singleton.union (h.latest i hmem)
  · rw [if_pos (h.linked.kids_of_notMem hmem), datesBelow_of_notMem h hmem, Set.union_empty]
    exact isGreatest_singleton

theorem isGreatest_latest (hs : a.Admits b id (.slot es.size) e.date parentId i above)
    (h : a.Sound es) (hi : a.message? i = none) {z : Index} (hz : z ∈ b.indices) :
    IsGreatest (b.datesBelow (es.push e) z) (b.dateOf z) := by
  have hown := hs.isGreatest_own h hi
  rw [hs.datesBelow_eq h hi]
  by_cases hzi : z = i
  · -- the container that the message takes
    subst hzi
    simp only [true_or, true_and]
    rw [Set.union_eq_right.2 fun d hd => .inr hd]
    exact hown
  by_cases hp : ∃ p, above = some p ∧ a.Below p z
  · -- a container above it, where the tree of the message is added
    simp only [hzi, hp, false_or, true_and]
    obtain ⟨p, hp, hpz⟩ := hp
    by_cases hza : z ∈ a.indices
    · rw [hs.raised p z hp hpz hza]
      exact (h.latest z hza).union hown
    · have hpar : a.parent? p = none := parent?_of_notMem fun hpa =>
        hza (h.rooted.mem_of_below hpa hpz)
      obtain rfl := hpz.eq_of_parentless hpar
      rw [datesBelow_of_notMem h hza, Set.empty_union, hs.new_parent p hp hza]
      exact hown
  · -- any other container, where nothing is added
    have hza : z ∈ a.indices := by
      rcases (hs.mem z).1 hz with hza | hza | hza
      · exact hza
      · exact absurd hza hzi
      · exact absurd ⟨z, hza, .refl a z⟩ hp
    simp only [hzi, hp, false_or, false_and, Set.ofPred_false, Set.union_empty]
    rw [hs.kept z hza hzi fun p hpa hpz => hp ⟨p, hpa, hpz⟩]
    exact h.latest z hza

section Preserved

variable (hs : a.Admits b e.messageId (.slot es.size) e.date parentId i above) (h : a.Sound es)
  (hi : a.message? i = none)
include hs h hi

omit hi in
theorem bound_after {m : Index} (hm : b.message? j = some m) :
    ∃ k, m = .slot k ∧ k < (es.push e).size := by
  rw [Array.size_push]
  rw [hs.message?] at hm
  split at hm
  next => exact ⟨es.size, (Option.some.inj hm).symm, by omega⟩
  next =>
    obtain ⟨k, rfl, hk⟩ := h.bound hm
    exact ⟨k, rfl, by omega⟩

theorem pointed_after (ht : e.thread = some i) {e' : Envelope} (he : (es.push e)[k]? = some e') :
    e'.thread = some j ↔ b.message? j = some (.slot k) := by
  rw [Array.getElem?_push] at he
  rw [hs.message?]
  split at he
  next hk =>
    -- the envelope that comes in
    cases he
    rw [ht, hk]
    by_cases hji : j = i
    · simp [hji]
    · rw [if_neg hji]
      exact ⟨fun e => absurd (Option.some.inj e).symm hji, fun hm => absurd rfl (h.lt_size hm).ne⟩
  next hk =>
    rw [h.pointed he]
    by_cases hji : j = i
    · simp [hji, hi, Ne.symm hk]
    · rw [if_neg hji]

theorem owned_after {e' : Envelope} (hj : b.Holds (es.push e) j k e') (x : Text) :
    b.find? x = some j ↔ x = e'.messageId ∧ x ≠ .empty := by
  rcases (hs.holds_iff h hi).1 hj with hj | ⟨rfl, rfl, rfl⟩
  · have hne : j ≠ i := by
      rintro rfl
      rw [hj.1] at hi
      cases hi
    rw [← h.owned hj x]
    refine ⟨fun hx => ?_, hs.keeps⟩
    rcases hs.find?_cases hx with hx | ⟨_, _, hx⟩ | ⟨_, _, hx⟩
    · exact hx
    · exact absurd hx hne
    · exact absurd (mem_indices_of_message? hj.1) hx
  · refine ⟨fun hx => ?_, fun hx => ?_⟩
    · rcases hs.find?_cases hx with hx | ⟨rfl, hx, _⟩ | ⟨_, hx, _⟩
      · -- the container waited for its message, and only its id names it
        have hid := hs.known (h.ready.named.mem_of_find? hx)
        obtain rfl := h.ready.named.find?_injective hid hx
        exact ⟨rfl, h.ready.named.ne_empty hx⟩
      · exact ⟨rfl, hx⟩
      · exact absurd (.refl a j) (hs.above_ne hx)
    · rw [hx.1]
      exact hs.own_id (hx.1 ▸ hx.2)

theorem ordered_after (j : Index) : (b.kids j).Pairwise b.Earlier := by
  have hkids : ∀ {y}, y ∈ a.kids j → b.message? y = a.message? y := fun {y} hy => by
    rw [hs.message?, if_neg]
    rintro rfl
    have hp := h.linked.mem_kids.1 hy
    rw [h.ready.topmost y hi] at hp
    cases hp
  have hbefore : (a.kids j).Pairwise b.Earlier :=
    (h.ordered j).imp_of_mem fun hy hz hyz => by
      unfold Earlier at hyz ⊢
      rwa [hkids hy, hkids hz]
  rw [hs.kids]
  split
  next =>
    refine List.pairwise_append.2 ⟨hbefore, List.pairwise_singleton _ _, fun y hy z hz => ?_⟩
    obtain ⟨k, _, hk⟩ := h.holds_of_parent (h.linked.mem_kids.1 hy)
    exact ⟨k, es.size, (hkids hy).trans hk.1, by
      rw [List.mem_singleton.1 hz, hs.message?, if_pos rfl], h.lt_size hk.1⟩
  next => exact hbefore

omit hi in
theorem awaited_after (hj : j ∈ b.indices) (hm : b.message? j = none) : b.kids j ≠ [] := by
  rw [hs.kids]
  split
  next => simp
  next hne =>
    rw [hs.message?] at hm
    split at hm
    next => cases hm
    next hji => exact h.awaited j (((hs.mem j).1 hj).resolve_right fun e => e.elim hji hne) hm

omit hi in
theorem ready_after : b.Ready where
  linked := hs.linked
  named := hs.named
  topmost := fun j hj => by
    rw [hs.message?] at hj
    split at hj
    next => cases hj
    next hne => rw [hs.parent?, if_neg hne, h.ready.topmost j hj]

end Preserved

/-- Every message that comes in preserves the invariant. -/
theorem sound (hs : a.Admits b e.messageId (.slot es.size) e.date parentId i above)
    (h : a.Sound es) (hw : ∀ j, a.find? e.messageId = some j → a.message? j = none)
    (ht : e.thread = some i) : b.Sound (es.push e) where
  ready := hs.ready_after h
  awaited := fun _ => hs.awaited_after h
  bound := hs.bound_after h
  pointed := hs.pointed_after h (hs.unheld hw) ht
  owned := hs.owned_after h (hs.unheld hw)
  latest := fun _ => hs.isGreatest_latest h (hs.unheld hw)
  ordered := hs.ordered_after h (hs.unheld hw)

end Admits

end MailThread.Arena
