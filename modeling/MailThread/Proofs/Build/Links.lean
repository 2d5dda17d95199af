import MailThread.Proofs.Build.Run
import Mathlib

namespace MailThread.Build

open Arena

/-- Without a sent folder the links are those of the parent references: a message stands under the
container of its reference, except where that lies in its own tree, placeholders have no parent, and
children come in the order of arrival. -/
theorem run_links (o : BuildOptions) (m : Mailbox) :
    ∃ b, run o m .absent = .ok b ∧
      b.forest.envelopes.toList.map Envelope.untied =
        m.withoutCopies.envelopes.toList.map Envelope.untied ∧
      (∀ (k : Nat) (e : Envelope) (i : Index), b.forest.envelopes[k]? = some e → e.thread = some i →
        b.forest.arena.message? i = some (.slot k) ∧
        (e.parentId? = none → b.forest.arena.parent? i = none) ∧
        ∀ x, e.parentId? = some x → ∃ p, b.forest.arena.find? x = some p ∧
          (b.forest.arena.Below p i → b.forest.arena.parent? i = none) ∧
          (¬ b.forest.arena.Below p i → b.forest.arena.parent? i = some p)) ∧
      (∀ i ∈ b.forest.arena.indices, b.forest.arena.message? i = none →
        b.forest.arena.parent? i = none) ∧
      ∀ i ∈ b.forest.arena.indices, ∃ kids, b.forest.arena.children i = .ok kids ∧
        (∀ j, j ∈ kids ↔ b.forest.arena.parent? j = some i) ∧
        kids.Pairwise b.forest.arena.Earlier := by
  obtain ⟨b, r, s, hb, hmade⟩ := run_eq_ok o m .absent nofun
  have hsound := hmade.forest_sound.arena
  have hfiled := hmade.filed rfl
  refine ⟨b, hb, hmade.map_untied rfl, fun k e i hk ht => ?_,
    fun i _ hm => hsound.ready.topmost i hm, fun i hi => ?_⟩
  · have hm := (hsound.pointed hk).1 ht
    refine ⟨hm, hfiled.free ⟨hm, hk⟩, fun x hx => ?_⟩
    obtain ⟨p, hp, hplace⟩ := hfiled.under ⟨hm, hk⟩ hx
    refine ⟨p, hp, fun hpi => ?_, fun hpi => ?_⟩
    · -- a container has no parent below itself
      rcases hplace with hparent | ⟨hparent, _⟩
      · exact absurd hpi (hsound.rooted.not_below_of_parent hparent)
      · exact hparent
    · exact hplace.resolve_right fun hparent => hpi hparent.2
  · exact ⟨b.forest.arena.kids i, hsound.linked.children_eq hi, fun j => hsound.linked.mem_kids,
      hsound.ordered i⟩

/-- Of two messages that name each other the later one stays without a parent, for the other one lies
below it. -/
theorem run_links_circle :
    ∃ b, run {} (.ofEnvelopes [{ messageId := "a", inReplyTo := "b" },
        { messageId := "b", inReplyTo := "a" }]) .absent = .ok b ∧
      b.forest.arena.parent? (.slot 1) = none ∧ b.forest.arena.Below (.slot 0) (.slot 1) := by
  obtain ⟨b, hb, _, hlinks, _⟩ := run_links {} (.ofEnvelopes
    [{ messageId := "a", inReplyTo := "b" }, { messageId := "b", inReplyTo := "a" }])
  have hvalue : (run {} (.ofEnvelopes [{ messageId := "a", inReplyTo := "b" },
      { messageId := "b", inReplyTo := "a" }]) .absent).toOption.map (fun b =>
        (b.forest.envelopes[1]?, b.forest.arena.find? "a", b.forest.arena.parent? (.slot 1))) =
      some (some { messageId := "b", inReplyTo := "a", thread := some (.slot 1) },
        some (.slot 0), none) := by cbv
  rw [hb] at hvalue
  simp only [Except.toOption, Option.map_some, Option.some.injEq, Prod.mk.injEq] at hvalue
  obtain ⟨henvelope, hfind, hparent⟩ := hvalue
  obtain ⟨_, _, hunder⟩ := hlinks 1 _ (.slot 1) henvelope rfl
  obtain ⟨p, hp, _, habove⟩ := hunder "a" (by decide)
  cases hfind.symm.trans hp
  refine ⟨b, hb, hparent, ?_⟩
  by_contra hbelow
  rw [habove hbelow] at hparent
  cases hparent

end MailThread.Build
