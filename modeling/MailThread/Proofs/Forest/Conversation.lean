import MailThread.Listing.Basic
import MailThread.Proofs.Assembly.Together
import MailThread.Proofs.Forest.Layout
import MailThread.Proofs.Forest.Roots
import Mathlib.Data.Set.Card

namespace MailThread

open Arena Relation

namespace Arena

variable {a b : Arena} {es : Array Envelope} {i t : Index} {k : Nat}

def subjectOf (a : Arena) (es : Array Envelope) (i : Index) : Text :=
  match a.message? i with
  | some m => subjectAt es m
  | none => .empty

/-- The positions of the messages in the tree below `i`. -/
def members (a : Arena) (i : Index) : Set Nat :=
  { k | ∃ j, a.Below j i ∧ a.message? j = some (.slot k) }

theorem Redrawn.tops_eq (h : a.Redrawn b) : b.tops = a.tops := by
  rw [tops, h.sameLinks.indices_eq, tops]
  refine List.filter_congr fun i hi => Bool.eq_iff_iff.2 ?_
  rw [isParentless_iff (h.mem_indices.2 hi), isParentless_iff hi, h.sameLinks.parent?_eq]

theorem Redrawn.mem_tops (h : a.Redrawn b) : t ∈ b.tops ↔ t ∈ a.tops := by
  rw [h.tops_eq]

theorem Redrawn.standIn_eq (h : a.Redrawn b) (ha : a.Linked) (t : Index) :
    b.standIn t = a.standIn t := by
  unfold standIn
  rw [h.message?_eq, h.sameLinks.kids_eq ha]

theorem Redrawn.roots_eq (h : a.Redrawn b) (ha : a.Linked) : b.roots = a.roots := by
  rw [(h.sameLinks.linked ha).roots_eq, ha.roots_eq, h.tops_eq, funext (h.standIn_eq ha)]
  simp only [h.dateOf_eq]

theorem Linked.members_standIn (h : a.Linked) (t : Index) :
    a.members (a.standIn t) = a.members t := by
  rcases a.standIn_cases t with hs | ⟨hm, hk⟩
  · rw [hs]
  · ext k
    constructor
    · rintro ⟨j, hj, he⟩
      exact ⟨j, hj.trans h.standIn_below, he⟩
    · rintro ⟨j, hj, he⟩
      refine ⟨j, ?_, he⟩
      rcases h.below_iff_kids.1 hj with rfl | ⟨i, hi, hj⟩
      · cases hm.symm.trans he
      · rw [hk, List.mem_singleton] at hi
        rwa [← hi]

theorem datesBelow_eq_members (i : Index) :
    a.datesBelow es i = { d | ∃ k ∈ a.members i, ∃ e, es[k]? = some e ∧ e.date = d } := by
  ext d
  constructor
  · rintro ⟨j, k, e, hj, hk, rfl⟩
    exact ⟨k, ⟨j, hj, hk.1⟩, e, hk.2, rfl⟩
  · rintro ⟨k, ⟨j, hj, hm⟩, e, he, rfl⟩
    exact ⟨j, k, e, hj, ⟨hm, he⟩, rfl⟩

end Arena

namespace Forest

variable {f : Forest} {i r r' t : Index} {k l : Nat}

def subject (f : Forest) (i : Index) : Text := f.arena.subjectOf f.envelopes i

/-- The subject of the first message of a conversation. -/
def firstSubject (f : Forest) (r : Index) : Text :=
  match f.messages r with
  | .ok (m :: _) => subjectAt f.envelopes m
  | _ => .empty

/-- The messages of the tree below `i`, in display order. -/
def messagesBelow (f : Forest) (i : Index) : List Index :=
  (f.arena.walk id i).filterMap f.arena.message?

namespace Sound

variable (h : f.Sound) (hr : r ∈ f.arena.indices)
include h hr

theorem messages_eq_ok : f.messages r = .ok (f.messagesBelow r) := by
  rw [messages_eq_route]
  exact congrArg (Except.map _) (h.arena.linked.toExcept_route hr id_perm)

theorem firstSubject_eq :
    f.firstSubject r = ((f.messagesBelow r).head?.map (subjectAt f.envelopes)).getD .empty := by
  rw [firstSubject, h.messages_eq_ok hr]
  cases f.messagesBelow r <;> rfl

theorem nodup_messagesBelow : (f.messagesBelow r).Nodup := by
  unfold messagesBelow
  refine List.Nodup.filterMap (fun i j m hi hj => ?_) (h.arena.linked.nodup_walk id_perm hr)
  obtain ⟨k, _, rfl, _⟩ := h.arena.holds_of_message? hi
  exact h.arena.holder_unique hi hj

theorem mem_messagesBelow {m : Index} :
    m ∈ f.messagesBelow r ↔ ∃ k ∈ f.arena.members r, m = .slot k := by
  simp only [messagesBelow, List.mem_filterMap, h.arena.linked.mem_walk id_perm hr]
  constructor
  · rintro ⟨j, hj, hm⟩
    obtain ⟨k, _, rfl, _⟩ := h.arena.holds_of_message? hm
    exact ⟨k, ⟨j, hj, hm⟩, rfl⟩
  · rintro ⟨k, ⟨j, hj, hm⟩, rfl⟩
    exact ⟨j, hj, hm⟩

theorem messages_eq :
    ∃ ms, f.messages r = .ok ms ∧ ms.Nodup ∧
      ∀ m, m ∈ ms ↔ ∃ k ∈ f.arena.members r, m = .slot k :=
  ⟨_, h.messages_eq_ok hr, h.nodup_messagesBelow hr, fun _ => h.mem_messagesBelow hr⟩

theorem ncard_members : (f.arena.members r).ncard = (f.messagesBelow r).length := by
  have himage : Index.slot '' f.arena.members r = ((f.messagesBelow r).toFinset : Set Index) := by
    ext m
    simp only [Set.mem_image, List.coe_toFinset, Set.mem_ofPred_eq, h.mem_messagesBelow hr, eq_comm]
  rw [← Set.ncard_image_of_injective _ fun _ _ => Index.slot.inj, himage, Set.ncard_coe_finset,
    List.toFinset_card_of_nodup (h.nodup_messagesBelow hr)]

end Sound

def partition (f : Forest) : Set (Set Nat) :=
  { S | ∃ r ∈ f.roots, ∃ ms, f.messages r = .ok ms ∧ S = { k | Index.slot k ∈ ms } }

theorem Sound.partition_eq (h : f.Sound) :
    f.partition = { S | ∃ r ∈ f.roots, S = f.arena.members r } := by
  ext S
  constructor
  · rintro ⟨r, hr, ms, hms, rfl⟩
    obtain ⟨ms', hms', _, hmem⟩ := h.messages_eq (h.roots r hr)
    cases hms.symm.trans hms'
    refine ⟨r, hr, ?_⟩
    ext k
    simp [hmem]
  · rintro ⟨r, hr, rfl⟩
    obtain ⟨ms, hms, _, hmem⟩ := h.messages_eq (h.roots r hr)
    refine ⟨r, hr, ms, hms, ?_⟩
    ext k
    simp [hmem]

open Classical in
/-- Date and size of the conversation of a root, if a message of it meets the term. -/
noncomputable def summary? (f : Forest) (term : Text) (r : Index) : Option (Rat × Nat) :=
  if ∃ k ∈ f.arena.members r, ∃ e, f.envelopes[k]? = some e ∧ Subject.meets e.subject term then
    some (f.arena.dateOf r, (f.arena.members r).ncard)
  else none

theorem Sound.exists_envelope (h : f.Sound) (hk : k ∈ f.arena.members r) :
    ∃ e, f.envelopes[k]? = some e := by
  obtain ⟨j, _, hm⟩ := hk
  obtain ⟨e, hholds⟩ := h.arena.holds_of_slot hm
  exact ⟨e, hholds.2⟩

theorem subjectAt_slot {es : Array Envelope} {e : Envelope} (he : es[k]? = some e) :
    subjectAt es (.slot k) = e.subject := by
  simp [subjectAt, Index.lookup, he]

/-- Whether a message of the tree below `r` meets the term. -/
def meets (f : Forest) (term : Text) (r : Index) : Bool :=
  ((f.messagesBelow r).map (subjectAt f.envelopes)).any (Subject.meets · term)

def conversationOf (f : Forest) (r : Index) : Conversation where
  root := r
  messages := f.messagesBelow r
  key :=
    { date := f.arena.dateOf r
      subject := ((f.messagesBelow r).head?.map (subjectAt f.envelopes)).getD .empty }

theorem Sound.meets_iff (h : f.Sound) (hr : r ∈ f.arena.indices) {term : Text} :
    f.meets term r ↔
      ∃ k ∈ f.arena.members r, ∃ e, f.envelopes[k]? = some e ∧ Subject.meets e.subject term := by
  unfold meets
  rw [List.any_eq_true]
  constructor
  · rintro ⟨_, hs, hmeets⟩
    obtain ⟨m, hm, rfl⟩ := List.mem_map.1 hs
    obtain ⟨k, hk, rfl⟩ := (h.mem_messagesBelow hr).1 hm
    obtain ⟨e, he⟩ := h.exists_envelope hk
    rw [subjectAt_slot he] at hmeets
    exact ⟨k, hk, e, he, hmeets⟩
  · rintro ⟨k, hk, e, he, hmeets⟩
    refine ⟨e.subject, List.mem_map.2 ⟨.slot k, ?_, subjectAt_slot he⟩, hmeets⟩
    exact (h.mem_messagesBelow hr).2 ⟨k, hk, rfl⟩

theorem Sound.conversation?_eq_ok (h : f.Sound) (hr : r ∈ f.arena.indices) (term : Text) :
    f.conversation? term r = .ok (if f.meets term r then some (f.conversationOf r) else none) := by
  unfold conversation? meets conversationOf
  rw [h.messages_eq_ok hr, ok_bind]
  cases f.messagesBelow r with
  | nil => rfl
  | cons m ms =>
    simp only [List.map_cons, List.head?_cons, Option.map_some, Option.getD_some]
    split <;> rfl

theorem Sound.conversation?_eq (h : f.Sound) (hr : r ∈ f.arena.indices) (term : Text) :
    ∃ c, f.conversation? term r = .ok c ∧
      (c.map fun c => (c.key.date, c.messages.length)) = f.summary? term r := by
  refine ⟨_, h.conversation?_eq_ok hr term, ?_⟩
  unfold summary?
  rw [h.ncard_members hr]
  by_cases hmeets : f.meets term r
  · rw [if_pos hmeets, if_pos ((h.meets_iff hr).1 hmeets)]
    rfl
  · rw [if_neg hmeets, if_neg fun hm => hmeets ((h.meets_iff hr).2 hm)]
    rfl

/-- A listing succeeds, and in some order it tells date and size of each conversation that meets the
term. -/
theorem Sound.conversationLines_perm (h : f.Sound) (o : ListingStyle) :
    ∃ lines, f.conversationLines o = .ok lines ∧
      (lines.map fun l => (l.date, l.messageCount)).Perm
        (f.roots.filterMap (f.summary? o.filter)) := by
  let told := fun c : Conversation => (c.key.date, c.messages.length)
  have hone : ∀ r, ∃ c, r ∈ f.roots →
      f.conversation? o.filter r = .ok c ∧ c.map told = f.summary? o.filter r := fun r => by
    by_cases hr : r ∈ f.roots
    · obtain ⟨c, hc⟩ := h.conversation?_eq (h.roots r hr) o.filter
      exact ⟨c, fun _ => hc⟩
    · exact ⟨none, fun hr' => absurd hr' hr⟩
  choose g hg using hone
  have hall : ∃ cs, f.conversations o = .ok cs ∧ cs.Perm (f.roots.filterMap g) := by
    unfold conversations
    rw [filterMapM_eq_ok fun r hr => (hg r hr).1, ok_bind]
    cases o.sort with
    | none => exact ⟨_, rfl, .refl _⟩
    | some s => exact ⟨_, rfl, List.mergeSort_perm _ _⟩
  obtain ⟨cs, hcs, hperm⟩ := hall
  refine ⟨cs.map (conversationLine o), by rw [conversationLines, hcs]; rfl, ?_⟩
  have hlines :
      (cs.map (conversationLine o)).map (fun l => (l.date, l.messageCount)) = cs.map told := by
    rw [List.map_map]
    rfl
  have hsummary : (f.roots.filterMap g).map told = f.roots.filterMap (f.summary? o.filter) := by
    rw [List.map_filterMap]
    exact List.filterMap_congr fun r hr => (hg r hr).2
  rw [hlines, ← hsummary]
  exact hperm.map told

/-- A forest whose roots stand for its trees, each for one. -/
structure Harvested (f : Forest) : Prop where
  nodup : f.roots.Nodup
  mem : ∀ {r}, r ∈ f.roots ↔ ∃ t ∈ f.arena.tops, f.arena.standIn t = r

/-- A forest in which every envelope has a container and is filed by its parent reference. -/
structure Settled (f : Forest) : Prop where
  sound : f.Sound
  harvested : f.Harvested
  filed : f.arena.Filed f.envelopes
  held : ∀ k e, f.envelopes[k]? = some e → ∃ i, f.arena.message? i = some (.slot k)

namespace Sound

variable (h : f.Sound) (hr : f.Harvested)
include h hr

theorem exists_root (hi : i ∈ f.arena.indices) (hm : f.arena.message? i = some (.slot k)) :
    ∃ r ∈ f.roots, k ∈ f.arena.members r := by
  obtain ⟨t, ht, hit⟩ := h.arena.rooted.exists_mem_tops hi
  refine ⟨f.arena.standIn t, hr.mem.2 ⟨t, ht, rfl⟩, ?_⟩
  rw [h.arena.linked.members_standIn]
  exact ⟨i, hit, hm⟩

theorem root_unique (hf : r ∈ f.roots) (hf' : r' ∈ f.roots) (hk : k ∈ f.arena.members r)
    (hk' : k ∈ f.arena.members r') : r = r' := by
  obtain ⟨t, ht, rfl⟩ := hr.mem.1 hf
  obtain ⟨t', ht', rfl⟩ := hr.mem.1 hf'
  rw [h.arena.linked.members_standIn] at hk hk'
  obtain ⟨j, hj, hm⟩ := hk
  obtain ⟨j', hj', hm'⟩ := hk'
  cases h.arena.holder_unique hm hm'
  rw [hj.top_unique hj' (mem_tops.1 ht).2 (mem_tops.1 ht').2]

omit hr in
theorem isGreatest_members (hi : i ∈ f.arena.indices) :
    IsGreatest { d | ∃ k ∈ f.arena.members i, ∃ e, f.envelopes[k]? = some e ∧ e.date = d }
      (f.arena.dateOf i) := by
  rw [← datesBelow_eq_members]
  exact h.arena.latest i hi

omit hr in
theorem members_nonempty (hi : i ∈ f.arena.indices) : (f.arena.members i).Nonempty := by
  obtain ⟨k, hk, _⟩ := (h.isGreatest_members hi).1
  exact ⟨k, hk⟩

theorem root_eq_of_members_eq (hf : r ∈ f.roots) (hf' : r' ∈ f.roots)
    (he : f.arena.members r = f.arena.members r') : r = r' := by
  obtain ⟨k, hk⟩ := h.members_nonempty (h.roots r hf)
  exact h.root_unique hr hf hf' hk (he ▸ hk)

end Sound

theorem Settled.members_eq (h : f.Settled) (hr : r ∈ f.roots) (hk : k ∈ f.arena.members r) :
    f.arena.members r = { l | EqvGen (Adjacent f.envelopes) k l } := by
  obtain ⟨t, ht, rfl⟩ := h.harvested.mem.1 hr
  rw [h.sound.arena.linked.members_standIn] at hk ⊢
  obtain ⟨i, hi, hm⟩ := hk
  obtain ⟨e, hholds⟩ := h.sound.arena.holds_of_slot hm
  ext l
  constructor
  · rintro ⟨j, hj, hm'⟩
    obtain ⟨e', hholds'⟩ := h.sound.arena.holds_of_slot hm'
    exact (h.filed.together_iff_eqvGen h.sound.arena h.held hholds hholds').1 ⟨t, hi, hj⟩
  · intro hl
    rcases h.filed.holders_of_eqvGen h.sound.arena h.held hl with rfl | ⟨i', j, hi', hj, htogether⟩
    · exact ⟨i, hi, hm⟩
    · cases h.sound.arena.holder_unique hm hi'
      exact ⟨j, htogether.below_top hi (mem_tops.1 ht).2, hj⟩

end Forest

end MailThread
