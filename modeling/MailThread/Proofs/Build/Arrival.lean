import MailThread.Proofs.Assembly.Refusal
import MailThread.Proofs.Build.Conversations
import MailThread.Proofs.Build.Register
import MailThread.Proofs.Forest.Twin
import Mathlib

namespace MailThread

open Arena Assembly Relation

def Mailbox.Acyclic (m : Mailbox) : Prop := ∀ x, ¬ TransGen (Cites m.envelopes) x x

theorem Mailbox.acyclic_of_rank {m : Mailbox} (rank : Text → Nat)
    (h : ∀ e ∈ m.envelopes.toList, ∀ x ∈ e.parentId?, rank x < rank e.messageId) : m.Acyclic := by
  intro x hx
  have hlt : TransGen (fun n k : Nat => k < n) (rank x) (rank x) := by
    refine hx.lift rank ?_
    rintro _ y ⟨e, he, rfl, hy⟩
    exact h e (Array.mem_toList_iff.2 he) y hy
  have htrans : IsTrans Nat fun n k : Nat => k < n := ⟨fun _ _ _ h h' => h'.trans h⟩
  rw [transGen_eq_self] at hlt
  exact Nat.lt_irrefl _ hlt

theorem Reordered.cites {σ : Equiv.Perm Nat} {es es' : Array Envelope} {x y : Text}
    (h : Reordered σ es es') (hxy : Cites es x y) : Cites es' x y :=
  h.exists_mem (p := fun e => e.messageId = x ∧ e.parentId? = some y) (fun e e' he hp => by
    rwa [← Envelope.messageId_eq he, ← Envelope.parentId?_eq he]) hxy

namespace Build

variable {o : BuildOptions} {m m' : Mailbox} {b : Build} {r s : Assembly}

namespace Made

variable (h : Made o m .absent b r s)
include h

theorem refused_eq : b.counts.refused = b.forest.arena.refusals b.mailbox := by
  obtain rfl := h.eq_of_absent rfl
  have hsent := h.passes.received.sent_eq
  have hrefusals := h.passes.received.refusals
  rw [h.counts, h.mailbox, h.arena.refusals_eq, hrefusals]
  simp [countsOf, hsent]

theorem isCopy_eq_false {e : Entry} (he : e ∈ b.mailbox.entries) : e.isCopy = false := by
  obtain rfl := h.eq_of_absent rfl
  have hmem : (e.envelope.untied, e.isCopy) ∈ b.mailbox.contents :=
    List.mem_map.2 ⟨e, Array.mem_toList_iff.2 he, rfl⟩
  rw [h.mailbox, h.passes.received.contents] at hmem
  simp only [Mailbox.contents, List.map_nil, List.nil_append, List.mem_map, Prod.mk.injEq] at hmem
  obtain ⟨_, _, _, hcopy⟩ := hmem
  exact hcopy.symm

section Distinct

variable (hids : IdsDistinct m.withoutCopies.envelopes)
include hids

theorem filed_entry {e : Entry} (he : e ∈ b.mailbox.entries) : e.Filed := by
  refine ⟨h.isCopy_eq_false he, fun hnone => ?_⟩
  obtain ⟨k, hk⟩ := Array.mem_iff_getElem?.1 he
  have hke : b.forest.envelopes[k]? = some e.envelope := by
    rw [h.envelopes_eq_mailbox, Mailbox.getElem?_envelopes, hk]
    rfl
  obtain ⟨i, hi⟩ := (h.settled hids).held k e.envelope hke
  have ht := (h.forest_sound.arena.pointed hke).2 hi
  rw [hnone] at ht
  cases ht

theorem isSome_find?_iff (x : Text) :
    (b.forest.arena.find? x).isSome ↔
      x ≠ .empty ∧ ∃ e ∈ b.forest.envelopes, e.messageId = x ∨ e.parentId? = some x := by
  rw [h.registered.isSome_find?_iff h.sound_mailbox, h.envelopes_eq_mailbox, Mailbox.envelopes]
  simp only [Array.mem_map, exists_exists_and_eq_and]
  refine and_congr_right fun _ => exists_congr fun e => and_congr_right fun he => ?_
  exact or_congr_right (and_iff_right (h.filed_entry hids he))

end Distinct

variable (hacyclic : m.withoutCopies.Acyclic)
include hacyclic

theorem parent?_of_acyclic {i : Index} {k : Nat} {e : Envelope} {x : Text}
    (hk : b.forest.arena.Holds b.forest.envelopes i k e) (hx : e.parentId? = some x) :
    ∃ p, b.forest.arena.find? x = some p ∧ b.forest.arena.parent? i = some p := by
  refine (h.filed rfl).parent?_of_acyclic h.forest_sound.arena (fun y hy => hacyclic y ?_) hk hx
  exact hy.lift id fun _ _ hcites => h.reordered.symm.cites hcites

theorem refused_eq_zero : b.counts.refused = 0 := by
  rw [h.refused_eq, refusals, List.countP_eq_zero]
  intro e he hrefused
  obtain ⟨k, hk⟩ := Array.mem_iff_getElem?.1 (Array.mem_toList_iff.1 he)
  simp only [Entry.refusedIn, Bool.and_eq_true] at hrefused
  obtain ⟨⟨_, hnamed⟩, hfree⟩ := hrefused
  obtain ⟨x, hx⟩ := Option.isSome_iff_exists.1 hnamed
  cases ht : e.envelope.thread with
  | none =>
    rw [ht] at hfree
    cases hfree
  | some i =>
    have hholds := h.sound_mailbox.holds_of_thread hk ht
    rw [← h.envelopes_eq_mailbox] at hholds
    obtain ⟨p, _, hp⟩ := h.parent?_of_acyclic hacyclic hholds hx
    rw [ht] at hfree
    simp only [hp] at hfree
    cases hfree

theorem straight (hids : IdsDistinct m.withoutCopies.envelopes) : b.forest.Straight where
  toSettled := h.settled hids
  laid := h.laid
  hung := h.parent?_of_acyclic hacyclic
  known := h.isSome_find?_iff hids
  named := h.registered.awaited

end Made

/-- Where message ids are distinct and the parent references run in no circle, a build without a sent
folder refuses no link, and in whatever order the envelopes arrive, it gives an isomorphic forest. -/
theorem run_isomorphic (o : BuildOptions) (m m' : Mailbox) (σ : Equiv.Perm Nat)
    (hids : m.withoutCopies.DistinctIds) (hacyclic : m.withoutCopies.Acyclic)
    (hσ : Reordered σ m.withoutCopies.envelopes m'.withoutCopies.envelopes) :
    ∃ b b', run o m .absent = .ok b ∧ run o m' .absent = .ok b' ∧
      b.counts.refused = 0 ∧ b'.counts.refused = 0 ∧
      ∃ φ, Forest.Isomorphism σ b.forest b'.forest φ := by
  obtain ⟨b, r, s, hb, hmade⟩ := run_eq_ok o m .absent nofun
  obtain ⟨b', r', s', hb', hmade'⟩ := run_eq_ok o m' .absent nofun
  have hacyclic' : m'.withoutCopies.Acyclic := fun x hx =>
    hacyclic x (hx.lift id fun _ _ hcites => hσ.symm.cites hcites)
  refine ⟨b, b', hb, hb', hmade.refused_eq_zero hacyclic, hmade'.refused_eq_zero hacyclic', ?_⟩
  -- a build keeps the order in which its envelopes came
  have hforests : Reordered σ b.forest.envelopes b'.forest.envelopes := fun k =>
    (hmade'.reordered (σ k)).trans ((hσ k).trans (hmade.reordered k).symm)
  exact (hmade.straight hacyclic hids.envelopes).exists_isomorphism
    (hmade'.straight hacyclic' (hσ.idsDistinct hids.envelopes)) hforests

/-- Replies before their originals and after them: in either order the container of the first message
has the date of the last one. -/
theorem run_isomorphic_reversed :
    ∃ b b' φ, run {} (.ofEnvelopes [{ messageId := "abc", inReplyTo := "ab", date := 3 },
        { messageId := "ab", inReplyTo := "a", date := 2 }, { messageId := "a", date := 1 },
        { messageId := "yz", inReplyTo := "z", date := 4 }]) .absent = .ok b ∧
      run {} (.ofEnvelopes [{ messageId := "yz", inReplyTo := "z", date := 4 },
        { messageId := "a", date := 1 }, { messageId := "ab", inReplyTo := "a", date := 2 },
        { messageId := "abc", inReplyTo := "ab", date := 3 }]) .absent = .ok b' ∧
      Forest.Isomorphism (Equiv.swap 0 3 * Equiv.swap 1 2) b.forest b'.forest φ ∧
      b.forest.arena.dateOf (.slot 2) = 3 ∧ b'.forest.arena.dateOf (φ (.slot 2)) = 3 := by
  generalize hm : Mailbox.ofEnvelopes [{ messageId := "abc", inReplyTo := "ab", date := 3 },
    { messageId := "ab", inReplyTo := "a", date := 2 }, { messageId := "a", date := 1 },
    { messageId := "yz", inReplyTo := "z", date := 4 }] = m
  generalize hm' : Mailbox.ofEnvelopes [{ messageId := "yz", inReplyTo := "z", date := 4 },
    { messageId := "a", date := 1 }, { messageId := "ab", inReplyTo := "a", date := 2 },
    { messageId := "abc", inReplyTo := "ab", date := 3 }] = m'
  have hids : m.withoutCopies.DistinctIds := by
    rw [← hm, Mailbox.withoutCopies_ofEnvelopes]
    decide
  have hacyclic : m.withoutCopies.Acyclic := by
    -- the ids get shorter on the way up
    apply Mailbox.acyclic_of_rank Text.length
    rw [← hm, Mailbox.envelopes_ofEnvelopes]
    decide
  have hσ : Reordered (Equiv.swap 0 3 * Equiv.swap 1 2) m.withoutCopies.envelopes
      m'.withoutCopies.envelopes := fun k => by
    rw [← hm, ← hm', Mailbox.envelopes_ofEnvelopes, Mailbox.envelopes_ofEnvelopes]
    match k with
    | 0 => rfl
    | 1 => rfl
    | 2 => rfl
    | 3 => rfl
    | k + 4 => simp [Equiv.swap_apply_of_ne_of_ne]
  have hvalue : (run {} m .absent).toOption.map (fun b =>
      (b.forest.arena.indices, b.forest.arena.dateOf (.slot 2))) =
      some ([.slot 0, .slot 1, .slot 2, .slot 3, .slot 4], 3) := by
    rw [← hm]
    cbv
  obtain ⟨b, b', hb, hb', _, _, φ, hφ⟩ := run_isomorphic {} m m' _ hids hacyclic hσ
  rw [hb] at hvalue
  simp only [Except.toOption, Option.map_some, Option.some.injEq, Prod.mk.injEq] at hvalue
  obtain ⟨hindices, hdate⟩ := hvalue
  refine ⟨b, b', φ, hb, hb', hφ, hdate, ?_⟩
  rw [hφ.date (.slot 2) (by simp [hindices]), hdate]

end Build

end MailThread
