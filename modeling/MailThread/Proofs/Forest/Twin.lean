import MailThread.Proofs.Forest.Reorder
import MailThread.Proofs.Forest.Rows

namespace MailThread

open Arena

namespace Arena

variable {a : Arena} {i k : Index}

theorem Linked.kids_eq_singleton_iff (h : a.Linked) :
    a.kids i = [k] ↔ ∀ j, a.parent? j = some i ↔ j = k := by
  constructor
  · intro hk j
    rw [← h.mem_kids, hk, List.mem_singleton]
  · intro hall
    have hperm : (a.kids i).Perm [k] := by
      rw [List.perm_ext_iff_of_nodup (h.nodup_kids i) (List.nodup_singleton k)]
      intro j
      rw [h.mem_kids, hall, List.mem_singleton]
    exact List.perm_singleton.1 hperm

theorem standIn_of_ne (h : ∀ k, a.message? i = none → a.kids i ≠ [k]) : a.standIn i = i :=
  (a.standIn_cases i).resolve_right fun hs => h _ hs.1 hs.2

theorem standIn_of_single (hm : a.message? i = none) (hk : a.kids i = [k]) : a.standIn i = k := by
  simp [standIn, hm, hk]

end Arena

namespace Forest

/-- A forest, laid out, in which every envelope has a container under that of its parent reference, and
every placeholder is one that a message refers to. -/
structure Straight (f : Forest) : Prop extends Settled f where
  laid : f.Laid
  hung : ∀ {i k e x}, f.arena.Holds f.envelopes i k e → e.parentId? = some x →
    ∃ p, f.arena.find? x = some p ∧ f.arena.parent? i = some p
  known : ∀ x, (f.arena.find? x).isSome ↔
    x ≠ .empty ∧ ∃ e ∈ f.envelopes, e.messageId = x ∨ e.parentId? = some x
  named : ∀ i ∈ f.arena.indices, f.arena.message? i = none → ∃ x, f.arena.find? x = some i

/-- The container `i` of `f` holds the message that `j` holds in `g`, and both have the same id. -/
structure Twin (σ : Equiv.Perm Nat) (f g : Forest) (i j : Index) : Prop where
  message : ∀ k, g.arena.message? j = some (.slot (σ k)) ↔ f.arena.message? i = some (.slot k)
  id : ∀ x, g.arena.find? x = some j ↔ f.arena.find? x = some i

variable {σ : Equiv.Perm Nat} {f g : Forest} {i i' j j' p q : Index} {k : Nat} {e : Envelope}
  {x : Text}

namespace Twin

theorem symm (h : Twin σ f g i j) : Twin σ.symm g f j i where
  message := fun k => by rw [← h.message, σ.apply_symm_apply]
  id := fun x => (h.id x).symm

theorem isSome_message? (h : Twin σ f g i j) (hf : f.Sound) (hg : g.Sound) :
    (g.arena.message? j).isSome = (f.arena.message? i).isSome := by
  rw [Bool.eq_iff_iff, Option.isSome_iff_exists, Option.isSome_iff_exists]
  constructor
  · rintro ⟨m, hm⟩
    obtain ⟨k, _, rfl, _⟩ := hg.arena.holds_of_message? hm
    exact ⟨_, (h.symm.message k).2 hm⟩
  · rintro ⟨m, hm⟩
    obtain ⟨k, _, rfl, _⟩ := hf.arena.holds_of_message? hm
    exact ⟨_, (h.message k).2 hm⟩

theorem message?_eq_none_iff (h : Twin σ f g i j) (hf : f.Sound) (hg : g.Sound) :
    g.arena.message? j = none ↔ f.arena.message? i = none := by
  rw [← Option.not_isSome_iff_eq_none, ← Option.not_isSome_iff_eq_none,
    h.isSome_message? hf hg]

end Twin

namespace Straight

theorem message_or_id (hf : f.Straight) (hi : i ∈ f.arena.indices) :
    (∃ k, f.arena.message? i = some (.slot k)) ∨
      (f.arena.message? i = none ∧ ∃ x, f.arena.find? x = some i) := by
  cases hm : f.arena.message? i with
  | none => exact .inr ⟨rfl, hf.named i hi hm⟩
  | some m =>
    obtain ⟨k, _, rfl, _⟩ := hf.sound.arena.holds_of_message? hm
    exact .inl ⟨k, rfl⟩

theorem twin_unique (hf : f.Straight) (hg : g.Sound) (hi : i ∈ f.arena.indices)
    (h : Twin σ f g i j) (h' : Twin σ f g i j') : j = j' := by
  rcases hf.message_or_id hi with ⟨k, hk⟩ | ⟨_, x, hx⟩
  · exact hg.arena.holder_unique ((h.message k).2 hk) ((h'.message k).2 hk)
  · exact Option.some.inj (((h.id x).2 hx).symm.trans ((h'.id x).2 hx))

theorem twin_mem (hf : f.Straight) (hg : g.Sound) (hi : i ∈ f.arena.indices)
    (h : Twin σ f g i j) : j ∈ g.arena.indices := by
  rcases hf.message_or_id hi with ⟨k, hk⟩ | ⟨_, x, hx⟩
  · exact mem_indices_of_message? ((h.message k).2 hk)
  · exact hg.arena.ready.named.mem_of_find? ((h.id x).2 hx)

variable (hf : f.Straight) (hg : g.Straight) (hσ : Reordered σ f.envelopes g.envelopes)
include hf hg hσ

theorem exists_twin_of_holds (hk : f.arena.Holds f.envelopes i k e) :
    ∃ j e', Twin σ f g i j ∧ g.arena.Holds g.envelopes j (σ k) e' ∧ e'.untied = e.untied := by
  obtain ⟨e', he', hu⟩ := hσ.exists_untied hk.2
  obtain ⟨j, hj⟩ := hg.held _ e' he'
  refine ⟨j, e', ⟨fun l => ?_, fun x => ?_⟩, ⟨hj, he'⟩, hu⟩
  · rw [hj, hk.1]
    simp only [Option.some.injEq, Index.slot.injEq, σ.injective.eq_iff]
  · rw [hg.sound.arena.owned ⟨hj, he'⟩ x, hf.sound.arena.owned hk x, Envelope.messageId_eq hu]

theorem message?_of_waiting (hm : f.arena.message? i = none) (hx : f.arena.find? x = some i)
    (hj : g.arena.find? x = some j) : g.arena.message? j = none := by
  by_contra hne
  obtain ⟨m, hne⟩ := Option.ne_none_iff_exists'.1 hne
  obtain ⟨l, e', _, hl⟩ := hg.sound.arena.holds_of_message? hne
  obtain ⟨i', _, htwin, hk, _⟩ := hg.exists_twin_of_holds hf hσ.symm hl
  -- the message would stand in the container of its id in `f` as well
  cases hx.symm.trans ((htwin.id x).2 hj)
  rw [hk.1] at hm
  cases hm

theorem exists_twin_of_id (hm : f.arena.message? i = none) (hx : f.arena.find? x = some i) :
    ∃ j, Twin σ f g i j := by
  have hknown : (g.arena.find? x).isSome := by
    obtain ⟨hne, hmentioned⟩ := (hf.known x).1 (Option.isSome_of_mem hx)
    refine (hg.known x).2 ⟨hne, hσ.exists_mem (fun e e' he => ?_) hmentioned⟩
    rw [Envelope.messageId_eq he, Envelope.parentId?_eq he]
    exact id
  obtain ⟨j, hj⟩ := Option.isSome_iff_exists.1 hknown
  have hjm := hf.message?_of_waiting hg hσ hm hx hj
  refine ⟨j, ⟨fun k => by rw [hm, hjm]; simp, fun y => ⟨fun hy => ?_, fun hy => ?_⟩⟩⟩
  · rwa [hg.sound.arena.ready.named.find?_injective hy hj]
  · rwa [hf.sound.arena.ready.named.find?_injective hy hx]

theorem exists_twin (hi : i ∈ f.arena.indices) : ∃ j, Twin σ f g i j := by
  rcases hf.message_or_id hi with ⟨k, hk⟩ | ⟨hm, x, hx⟩
  · obtain ⟨e, hholds⟩ := hf.sound.arena.holds_of_slot hk
    obtain ⟨j, _, htwin, _⟩ := hf.exists_twin_of_holds hg hσ hholds
    exact ⟨j, htwin⟩
  · exact hf.exists_twin_of_id hg hσ hm hx

theorem twin_of_id (hx : f.arena.find? x = some i) (hj : g.arena.find? x = some j) :
    Twin σ f g i j := by
  obtain ⟨j', htwin⟩ := hf.exists_twin hg hσ (hf.sound.arena.ready.named.mem_of_find? hx)
  cases hj.symm.trans ((htwin.id x).2 hx)
  exact htwin

theorem parent?_twin (h : Twin σ f g i j) (hp : f.arena.parent? i = some p) :
    ∃ q, g.arena.parent? j = some q ∧ Twin σ f g p q := by
  obtain ⟨k, e, x, hk, hx, hxp⟩ := hf.filed.refers_of_parent hf.sound.arena hp
  obtain ⟨j', e', htwin, hk', hu⟩ := hf.exists_twin_of_holds hg hσ hk
  cases hf.twin_unique hg.sound (mem_indices_of_message? hk.1) h htwin
  obtain ⟨q, hq, hparent⟩ := hg.hung hk' ((Envelope.parentId?_eq hu).trans hx)
  exact ⟨q, hparent, hf.twin_of_id hg hσ hxp hq⟩

theorem parent?_eq_none_of_twin (h : Twin σ f g i j) (hp : f.arena.parent? i = none) :
    g.arena.parent? j = none := by
  by_contra hne
  obtain ⟨q, hq⟩ := Option.ne_none_iff_exists'.1 hne
  obtain ⟨p, hp', _⟩ := hg.parent?_twin hf hσ.symm h.symm hq
  rw [hp] at hp'
  cases hp'

theorem below_twin (hb : f.arena.Below i i') (hi : i ∈ f.arena.indices) (h : Twin σ f g i j)
    (h' : Twin σ f g i' j') : g.arena.Below j j' := by
  induction hb using Relation.ReflTransGen.head_induction_on generalizing j with
  | refl =>
    rw [hf.twin_unique hg.sound hi h h']
    exact .refl g.arena j'
  | head hp _ ih =>
    obtain ⟨q, hq, htwin⟩ := hf.parent?_twin hg hσ h hp
    exact (Below.of_parent hq).trans (ih (hf.sound.arena.rooted.parent_mem hp) htwin)

theorem image_members_subset (h : Twin σ f g i j) :
    σ '' f.arena.members i ⊆ g.arena.members j := by
  rintro _ ⟨k, ⟨i', hb, hm⟩, rfl⟩
  have hi' := mem_indices_of_message? hm
  obtain ⟨j', htwin⟩ := hf.exists_twin hg hσ hi'
  exact ⟨j', hf.below_twin hg hσ hb hi' htwin h, (htwin.message k).2 hm⟩

theorem members_twin (h : Twin σ f g i j) : g.arena.members j = σ '' f.arena.members i := by
  apply Set.Subset.antisymm
  · intro k hk
    have hback := hg.image_members_subset hf hσ.symm h.symm ⟨k, hk, rfl⟩
    exact ⟨σ.symm k, hback, σ.apply_symm_apply k⟩
  · exact hf.image_members_subset hg hσ h

theorem dateOf_twin (hi : i ∈ f.arena.indices) (h : Twin σ f g i j) :
    g.arena.dateOf j = f.arena.dateOf i :=
  hf.sound.dateOf_eq hσ hg.sound hi (hf.twin_mem hg.sound hi h) (hf.members_twin hg hσ h)

theorem ncard_messagesAbove_twin (hi : i ∈ f.arena.indices) (h : Twin σ f g i j) :
    (g.arena.messagesAbove j).ncard = (f.arena.messagesAbove i).ncard := by
  obtain ⟨t, hit, ht⟩ := hf.sound.arena.rooted.exists_top hi
  induction hit using Relation.ReflTransGen.head_induction_on generalizing j with
  | refl =>
    rw [messagesAbove_of_parentless ht,
      messagesAbove_of_parentless (hf.parent?_eq_none_of_twin hg hσ h ht)]
  | @head i p hp _ ih =>
    obtain ⟨q, hq, htwin⟩ := hf.parent?_twin hg hσ h hp
    rw [hf.sound.arena.rooted.ncard_messagesAbove hp, hg.sound.arena.rooted.ncard_messagesAbove hq,
      ih (hf.sound.arena.rooted.parent_mem hp) htwin, ownLevel, ownLevel,
      htwin.isSome_message? hf.sound hg.sound]

theorem indentationOf_twin (hi : i ∈ f.arena.indices) (h : Twin σ f g i j) :
    g.arena.indentationOf j = f.arena.indentationOf i := by
  rw [hf.laid.indentation i hi, hg.laid.indentation j (hf.twin_mem hg.sound hi h),
    hf.ncard_messagesAbove_twin hg hσ hi h]

theorem kids_twin (h : Twin σ f g i j) (hk : f.arena.kids i = [p]) :
    ∃ q, g.arena.kids j = [q] ∧ Twin σ f g p q := by
  have hlinked := hf.sound.arena.linked
  have hp : f.arena.parent? p = some i := hlinked.mem_kids.1 (hk ▸ List.mem_singleton_self p)
  have hpi := hlinked.kids_subset i (hk ▸ List.mem_singleton_self p)
  have hi := hf.sound.arena.rooted.parent_mem hp
  obtain ⟨q, hpq⟩ := hf.exists_twin hg hσ hpi
  refine ⟨q, (hg.sound.arena.linked.kids_eq_singleton_iff).2 fun d => ?_, hpq⟩
  constructor
  · -- another child of `j` would have a twin below `i`
    intro hd
    have hdi := hg.sound.arena.linked.kids_subset j (hg.sound.arena.linked.mem_kids.2 hd)
    obtain ⟨c, hdc⟩ := hg.exists_twin hf hσ.symm hdi
    obtain ⟨i', hi', htwin⟩ := hg.parent?_twin hf hσ.symm hdc hd
    cases hg.twin_unique hf.sound (hf.twin_mem hg.sound hi h) h.symm htwin
    cases (hlinked.kids_eq_singleton_iff.1 hk c).1 hi'
    exact (hf.twin_unique hg.sound hpi hpq (σ.symm_symm ▸ hdc.symm)).symm
  · rintro rfl
    obtain ⟨j', hj', htwin⟩ := hf.parent?_twin hg hσ hpq hp
    rwa [hf.twin_unique hg.sound hi h htwin]

theorem standIn_twin (h : Twin σ f g i j) :
    Twin σ f g (f.arena.standIn i) (g.arena.standIn j) := by
  have hnone := h.message?_eq_none_iff hf.sound hg.sound
  by_cases hs : ∃ p, f.arena.message? i = none ∧ f.arena.kids i = [p]
  · obtain ⟨p, hm, hk⟩ := hs
    obtain ⟨q, hk', htwin⟩ := hf.kids_twin hg hσ h hk
    rwa [standIn_of_single hm hk, standIn_of_single (hnone.2 hm) hk']
  · rw [standIn_of_ne fun p hm hk => hs ⟨p, hm, hk⟩, standIn_of_ne fun q hm hk => ?_]
    · exact h
    · obtain ⟨p, hk', _⟩ := hg.kids_twin hf hσ.symm h.symm hk
      exact hs ⟨p, hnone.1 hm, hk'⟩

theorem mem_roots_of_twin (hr : i ∈ f.roots) (h : Twin σ f g i j) : j ∈ g.roots := by
  obtain ⟨t, ht, rfl⟩ := hf.harvested.mem.1 hr
  obtain ⟨hti, hfree⟩ := mem_tops.1 ht
  obtain ⟨u, htwin⟩ := hf.exists_twin hg hσ hti
  refine hg.harvested.mem.2 ⟨u, mem_tops.2 ⟨hf.twin_mem hg.sound hti htwin,
    hf.parent?_eq_none_of_twin hg hσ htwin hfree⟩, ?_⟩
  exact hf.twin_unique hg.sound (hf.sound.roots _ hr) (hf.standIn_twin hg hσ htwin) h

end Straight

/-- `φ` takes the containers of `f` to those of `g`: those of a message to that of the same message,
which stands at another position there, and those of an id to that of the id. It keeps the trees,
dates and levels, the roots, and the messages of each conversation. -/
structure Isomorphism (σ : Equiv.Perm Nat) (f g : Forest) (φ : Index → Index) : Prop where
  bijective : Set.BijOn φ { i | i ∈ f.arena.indices } { j | j ∈ g.arena.indices }
  message : ∀ i ∈ f.arena.indices, ∀ k,
    g.arena.message? (φ i) = some (.slot (σ k)) ↔ f.arena.message? i = some (.slot k)
  id : ∀ i ∈ f.arena.indices, ∀ x, g.arena.find? x = some (φ i) ↔ f.arena.find? x = some i
  waiting : ∀ i ∈ f.arena.indices, g.arena.message? (φ i) = none ↔ f.arena.message? i = none
  parent : ∀ i ∈ f.arena.indices, g.arena.parent? (φ i) = (f.arena.parent? i).map φ
  shownParent : ∀ i ∈ f.arena.indices, g.arena.shownParent? (φ i) = (f.arena.shownParent? i).map φ
  date : ∀ i ∈ f.arena.indices, g.arena.dateOf (φ i) = f.arena.dateOf i
  indentation : ∀ i ∈ f.arena.indices, g.arena.indentationOf (φ i) = f.arena.indentationOf i
  roots : ∀ i ∈ f.arena.indices, φ i ∈ g.roots ↔ i ∈ f.roots
  messages : ∀ i ∈ f.arena.indices, ∃ ms ms', f.messages i = .ok ms ∧ g.messages (φ i) = .ok ms' ∧
    ms'.Nodup ∧ ∀ k, .slot (σ k) ∈ ms' ↔ .slot k ∈ ms

section Choice

variable (hf : f.Straight) (hg : g.Straight) (hσ : Reordered σ f.envelopes g.envelopes)
  {φ : Index → Index} (hφ : ∀ i ∈ f.arena.indices, Twin σ f g i (φ i))
include hf hg hσ hφ

theorem Straight.bijOn_twins :
    Set.BijOn φ { i | i ∈ f.arena.indices } { j | j ∈ g.arena.indices } := by
  have hmem : ∀ i ∈ f.arena.indices, φ i ∈ g.arena.indices := fun i hi =>
    hf.twin_mem hg.sound hi (hφ i hi)
  refine ⟨hmem, fun i hi i' hi' he => ?_, fun j hj => ?_⟩
  · have hback := (hφ i' hi').symm
    rw [← he] at hback
    exact hg.twin_unique hf.sound (hmem i hi) (hφ i hi).symm hback
  · obtain ⟨i, htwin⟩ := hg.exists_twin hf hσ.symm hj
    have hi := hg.twin_mem hf.sound hj htwin
    have hback := htwin.symm
    rw [σ.symm_symm] at hback
    exact ⟨i, hi, hf.twin_unique hg.sound hi (hφ i hi) hback⟩

theorem Straight.parent?_map (hi : i ∈ f.arena.indices) :
    g.arena.parent? (φ i) = (f.arena.parent? i).map φ := by
  cases hp : f.arena.parent? i with
  | none => exact hf.parent?_eq_none_of_twin hg hσ (hφ i hi) hp
  | some p =>
    obtain ⟨q, hq, htwin⟩ := hf.parent?_twin hg hσ (hφ i hi) hp
    have hpi := hf.sound.arena.rooted.parent_mem hp
    rw [hq, hf.twin_unique hg.sound hpi htwin (hφ p hpi)]
    rfl

theorem Straight.shownParent?_map (hi : i ∈ f.arena.indices) :
    g.arena.shownParent? (φ i) = (f.arena.shownParent? i).map φ := by
  rw [hf.laid.shownParent i hi, hg.laid.shownParent _ (hf.twin_mem hg.sound hi (hφ i hi)),
    messageParent?, messageParent?, hf.parent?_map hg hσ hφ hi]
  cases hp : f.arena.parent? i with
  | none => rfl
  | some p =>
    have htwin := hφ p (hf.sound.arena.rooted.parent_mem hp)
    simp only [Option.map_some, Option.filter, htwin.isSome_message? hf.sound hg.sound]
    split <;> rfl

theorem Straight.isomorphism : Isomorphism σ f g φ where
  bijective := hf.bijOn_twins hg hσ hφ
  message := fun i hi => (hφ i hi).message
  id := fun i hi => (hφ i hi).id
  waiting := fun i hi => (hφ i hi).message?_eq_none_iff hf.sound hg.sound
  parent := fun _ => hf.parent?_map hg hσ hφ
  shownParent := fun _ => hf.shownParent?_map hg hσ hφ
  date := fun i hi => hf.dateOf_twin hg hσ hi (hφ i hi)
  indentation := fun i hi => hf.indentationOf_twin hg hσ hi (hφ i hi)
  roots := fun i hi => ⟨fun hr => hg.mem_roots_of_twin hf hσ.symm hr (hφ i hi).symm,
    fun hr => hf.mem_roots_of_twin hg hσ hr (hφ i hi)⟩
  messages := fun i hi => by
    have hj := hf.twin_mem hg.sound hi (hφ i hi)
    refine ⟨_, _, hf.sound.messages_eq_ok hi, hg.sound.messages_eq_ok hj,
      hg.sound.nodup_messagesBelow hj, fun k => ?_⟩
    rw [hg.sound.mem_messagesBelow hj, hf.sound.mem_messagesBelow hi,
      hf.members_twin hg hσ (hφ i hi)]
    simp

end Choice

theorem Straight.exists_isomorphism (hf : f.Straight) (hg : g.Straight)
    (hσ : Reordered σ f.envelopes g.envelopes) : ∃ φ, Isomorphism σ f g φ := by
  have hchoice : ∀ i, ∃ j, i ∈ f.arena.indices → Twin σ f g i j := fun i => by
    by_cases hi : i ∈ f.arena.indices
    · obtain ⟨j, hj⟩ := hf.exists_twin hg hσ hi
      exact ⟨j, fun _ => hj⟩
    · exact ⟨i, fun h => absurd h hi⟩
  choose φ hφ using hchoice
  exact ⟨φ, hf.isomorphism hg hσ hφ⟩

end Forest

end MailThread
