import MailThread.Proofs.Arena.Date
import Mathlib.Data.List.Nodup

namespace MailThread.Arena

variable {a b : Arena} {i j p : Index} {id : Text}

/-- The id index: each id once, each container under one id at most, and no entry without a
container. -/
structure Named (a : Arena) : Prop where
  keys : (a.ids.map Prod.fst).Nodup
  slots : (a.ids.map Prod.snd).Nodup
  inside : ∀ e ∈ a.ids, e.2 ∈ a.indices
  full : a.find? .empty = none

namespace Named

theorem mem_of_find? (h : a.Named) (hf : a.find? id = some i) : i ∈ a.indices :=
  h.inside (id, i) (mem_ids_of_find? hf)

theorem ne_empty (h : a.Named) (hf : a.find? id = some i) : id ≠ .empty := by
  rintro rfl
  rw [h.full] at hf
  cases hf

theorem find?_injective (h : a.Named) {id' : Text} (hf : a.find? id = some i)
    (hf' : a.find? id' = some i) : id = id' := by
  have hp := List.inj_on_of_nodup_map h.slots (mem_ids_of_find? hf) (mem_ids_of_find? hf') rfl
  exact congrArg Prod.fst hp

theorem mem_ids_iff (h : a.Named) : (id, i) ∈ a.ids ↔ a.find? id = some i := by
  refine ⟨fun hm => ?_, mem_ids_of_find?⟩
  cases hf : a.find? id with
  | none => exact absurd (List.mem_map_of_mem hm) (find?_eq_none.1 hf)
  | some j =>
    cases List.inj_on_of_nodup_map h.keys (mem_ids_of_find? hf) hm rfl
    rfl

theorem mem_slots_iff (h : a.Named) : i ∈ a.ids.map Prod.snd ↔ ∃ x, a.find? x = some i := by
  simp only [List.mem_map, Prod.exists, exists_eq_right, h.mem_ids_iff]

end Named

theorem find?_congr (hids : b.ids = a.ids) (x : Text) : b.find? x = a.find? x := by
  unfold find?
  rw [hids]

theorem Named.congr (h : a.Named) (hids : b.ids = a.ids)
    (hmem : ∀ j, j ∈ a.indices → j ∈ b.indices) : b.Named where
  keys := hids ▸ h.keys
  slots := hids ▸ h.slots
  inside := fun e he => hmem _ (h.inside e (hids ▸ he))
  full := (find?_congr hids .empty).trans h.full

theorem mem_indices_append : j ∈ a.append.2.indices ↔ j ∈ a.indices ∨ j = .slot a.size := by
  cases j with
  | slot n =>
    rw [slot_mem_indices, slot_mem_indices, size_append, Index.slot.injEq]
    omega
  | stray q => simp [indices]

/-- The container that a message with this id takes: a new one where it has no id. -/
def seat (a : Arena) (id : Text) : Index × Arena :=
  if id = .empty then a.append else a.claim id

/-- The container of a message that is named as a parent; a new one starts with the date of its
child. -/
def parentSeat (a : Arena) (id : Text) (d : Rat) : Index × Arena :=
  match a.find? id with
  | some p => (p, a)
  | none => ((a.claim id).1, (a.claim id).2.update (a.claim id).1 fun c => { c with date := d })

theorem seat_of_find? (h : a.Named) (hf : a.find? id = some i) : a.seat id = (i, a) := by
  rw [seat, if_neg (h.ne_empty hf), claim_of_some hf]

theorem seat_new (hf : a.find? id = none) : (a.seat id).1 ∉ a.indices := by
  have hs : (a.seat id).1 = .slot a.size := by
    unfold seat
    split
    · rfl
    · rw [claim_of_none hf]
  rw [hs]
  exact fun hi => ne_size_of_mem hi rfl

theorem parentSeat_of_find? {d : Rat} (hf : a.find? id = some i) : a.parentSeat id d = (i, a) := by
  rw [parentSeat, hf]

/-- In `b` the id `id`, if it is not empty, names the container `i`, which it named before or which is
new. -/
structure Assigns (a b : Arena) (id : Text) (i : Index) : Prop where
  known : i ∈ a.indices → a.find? id = some i
  new : i ∉ a.indices → a.find? id = none
  find? : ∀ x, b.find? x = if x = id ∧ id ≠ .empty then some i else a.find? x

namespace Assigns

variable (h : a.Assigns b id i) {x : Text}
include h

theorem keeps (hx : a.find? x = some p) : b.find? x = some p := by
  rw [h.find?]
  split
  next hxi =>
    rw [hxi.1] at hx
    by_cases hi : i ∈ a.indices
    · rw [← hx, h.known hi]
    · rw [h.new hi] at hx
      cases hx
  next => exact hx

theorem find?_cases (hx : b.find? x = some p) :
    a.find? x = some p ∨ (x = id ∧ id ≠ .empty ∧ p = i) := by
  rw [h.find?] at hx
  split at hx
  next hxi => exact .inr ⟨hxi.1, hxi.2, (Option.some.inj hx).symm⟩
  next => exact .inl hx

end Assigns

/-- In `b` the message `id` has the container `i`. All else is as in `a`. -/
structure Seats (a b : Arena) (id : Text) (i : Index) : Prop extends Assigns a b id i where
  linked : b.Linked
  named : b.Named
  trees : a.SameTrees b
  mem : ∀ j, j ∈ b.indices ↔ j ∈ a.indices ∨ j = i
  date : ∀ j ∈ a.indices, b.dateOf j = a.dateOf j

theorem seats_of_find? (h : a.Linked) (hn : a.Named) (hf : a.find? id = some i) :
    a.Seats a id i where
  linked := h
  named := hn
  trees := .refl a
  mem := fun j => ⟨.inl, fun hj => hj.elim (fun hj => hj) fun e => e ▸ hn.mem_of_find? hf⟩
  known := fun _ => hf
  new := fun hi => absurd (hn.mem_of_find? hf) hi
  find? := fun x => by
    split
    next hx => rw [hx.1, hf]
    next => rfl
  date := fun _ _ => rfl

theorem seats_append (h : a.Linked) (hn : a.Named) :
    a.Seats a.append.2 .empty (.slot a.size) where
  linked := h.append
  named :=
    { keys := hn.keys
      slots := hn.slots
      inside := fun e he => mem_indices_append.2 (.inl (hn.inside e he))
      full := hn.full }
  trees := h.sameTrees_append
  mem := fun _ => mem_indices_append
  known := fun hi => absurd rfl (ne_size_of_mem hi)
  new := fun _ => hn.full
  find? := fun x => by
    rw [if_neg fun hx => hx.2 rfl]
    rfl
  date := fun j _ => dateOf_append a j

theorem seats_claim (h : a.Linked) (hn : a.Named) (hid : id ≠ .empty) (hf : a.find? id = none) :
    a.Seats (a.claim id).2 id (.slot a.size) := by
  have hids := ids_claim_of_none hf
  have hmem : ∀ j, j ∈ (a.claim id).2.indices ↔ j ∈ a.indices ∨ j = .slot a.size := fun j => by
    rw [claim_of_none hf, ← mem_indices_append]
    exact (sameLinks_assign a.append.2 id _).mem_indices
  have hfind : ∀ x, (a.claim id).2.find? x = if x = id then some (.slot a.size) else a.find? x := by
    intro x
    rw [Arena.find?, hids, List.lookup_append, ← Arena.find?]
    by_cases hx : x = id
    · simp [hx, hf]
    · have hne : (x == id) = false := by simpa using hx
      rw [List.lookup_cons, hne]
      simp [hx]
  refine ⟨⟨fun hi => absurd rfl (ne_size_of_mem hi), fun _ => hf, fun x => ?_⟩, ?_,
    ⟨?_, ?_, ?_, ?_⟩, ?_, hmem, fun j _ => ?_⟩
  · simp only [hfind, hid, ne_eq, not_false_eq_true, and_true]
  · rw [claim_of_none hf]
    exact (sameLinks_assign a.append.2 id _).linked h.append
  · rw [hids, List.map_append, List.nodup_append]
    refine ⟨hn.keys, by simp, ?_⟩
    rintro k hk k' hk' rfl
    rw [List.mem_singleton.1 hk'] at hk
    exact find?_eq_none.1 hf hk
  · rw [hids, List.map_append, List.nodup_append]
    refine ⟨hn.slots, by simp, ?_⟩
    rintro k hk k' hk' rfl
    obtain ⟨e, he, rfl⟩ := List.mem_map.1 hk
    exact ne_size_of_mem (hn.inside e he) (List.mem_singleton.1 hk')
  · intro e he
    rw [hids, List.mem_append] at he
    rcases he with he | he
    · exact (hmem _).2 (.inl (hn.inside e he))
    · exact (hmem _).2 (.inr (by rw [List.mem_singleton.1 he]))
  · rw [hfind, if_neg hid.symm, hn.full]
  · rw [claim_of_none hf]
    exact h.sameTrees_append.trans ((sameLinks_assign _ id _).sameTrees h.append
      (message?_assign _ id _))
  · rw [claim_of_none hf, dateOf_assign, dateOf_append]

theorem seat_seats (h : a.Linked) (hn : a.Named) (id : Text) :
    a.Seats (a.seat id).2 id (a.seat id).1 := by
  unfold seat
  split
  next hid =>
    subst hid
    exact seats_append h hn
  next hid =>
    cases hf : a.find? id with
    | none =>
      have hs := seats_claim h hn hid hf
      rwa [show Index.slot a.size = (a.claim id).1 by rw [claim_of_none hf]] at hs
    | some i =>
      rw [claim_of_some hf]
      exact seats_of_find? h hn hf

theorem parentSeat_seats (h : a.Linked) (hn : a.Named) (hid : id ≠ .empty) (d : Rat) :
    a.Seats (a.parentSeat id d).2 id (a.parentSeat id d).1 ∧
      ((a.parentSeat id d).1 ∉ a.indices →
        (a.parentSeat id d).2.dateOf (a.parentSeat id d).1 = d) := by
  unfold parentSeat
  cases hf : a.find? id with
  | some p =>
    exact ⟨seats_of_find? h hn hf, fun hp => absurd (hn.mem_of_find? hf) hp⟩
  | none =>
    have hfst : (a.claim id).1 = .slot a.size := by rw [claim_of_none hf]
    have hs := seats_claim h hn hid hf
    simp only [hfst]
    generalize (a.claim id).2 = b at hs
    let redate := fun c : Container => { c with date := d }
    have hlinks : b.SameLinks (b.update (.slot a.size) redate) := .update b _ fun _ => rfl
    obtain ⟨c, hc⟩ := mem_indices.1 ((hs.mem (.slot a.size)).2 (.inr rfl))
    have hdate : ∀ j, (b.update (.slot a.size) redate).dateOf j =
        if j = .slot a.size then d else b.dateOf j := fun j => by
      rw [dateOf_eq, dateOf_eq, get?_update]
      split
      next hj => simp [hj, hc, redate]
      next => rfl
    refine ⟨⟨⟨hs.known, hs.new, ?_⟩, hlinks.linked hs.linked, ?_, ?_, ?_, ?_⟩, ?_⟩
    · simpa using hs.find?
    · exact hs.named.congr (ids_update b _ _) fun j => hlinks.mem_indices.2
    · exact hs.trees.trans (hlinks.sameTrees hs.linked (message?_update b _ fun _ => rfl))
    · simpa using hs.mem
    · intro j hj
      rw [hdate, if_neg (ne_size_of_mem hj), hs.date j hj]
    · intro _
      rw [hdate, if_pos rfl]

end MailThread.Arena
