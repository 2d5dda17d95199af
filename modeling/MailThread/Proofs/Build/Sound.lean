import MailThread.Proofs.Build.Run
import Mathlib

namespace MailThread

open Arena

namespace Build

/-- Every build succeeds, and neither it nor any number of further layouts leaves a flaw for the audit
to find. -/
theorem run_audit (o : BuildOptions) (m : Mailbox) (sent : SentFolder) (hsent : sent ≠ .own) :
    ∃ b, run o m sent = .ok b ∧ ∀ again : List Bool,
      ∃ f, b.forest.layOuts again = (f, none) ∧ f.Sound ∧ f.audit = .ok [] := by
  obtain ⟨b, r, s, hb, hmade⟩ := run_eq_ok o m sent hsent
  refine ⟨b, hb, fun again => ?_⟩
  obtain ⟨f, hf, hredrawn⟩ := hmade.forest_sound.layOuts_spec again
  have hsound := hredrawn.sound hmade.forest_sound
  exact ⟨f, hf, hsound, hsound.audit_eq_nil⟩

/-- Two messages that name each other, a second envelope of one of them, a reply to a message that never
came, an envelope without an id, and a sent folder that fills a placeholder. -/
theorem run_audit_circle :
    ∃ b, run {} (.ofEnvelopes [{ messageId := "a", inReplyTo := "b", date := -3 },
        { messageId := "b", references := ["a"], date := 5 }, { messageId := "a", date := 9 },
        { messageId := "c", inReplyTo := "d", date := 2 }, { references := ["d", "e"], date := 7 }])
        (.folder [{ messageId := "d", inReplyTo := "c", date := 1 }, { inReplyTo := "e", date := 8 }]) =
          .ok b ∧
      ∀ again : List Bool, ∃ f, b.forest.layOuts again = (f, none) ∧ f.Sound ∧ f.audit = .ok [] :=
  run_audit _ _ _ nofun

/-- In every build the date of a container is that of the latest message in its tree, and the roots
come in the order of the latest messages of their conversations, the most recent first. -/
theorem run_latest (o : BuildOptions) (m : Mailbox) (sent : SentFolder) :
    (sent ≠ .own → ∃ b, run o m sent = .ok b) ∧
      ∀ b, run o m sent = .ok b →
        (∀ i ∈ b.forest.arena.indices,
          IsGreatest (b.forest.arena.datesBelow b.forest.envelopes i) (b.forest.arena.dateOf i)) ∧
        (∀ t ∈ b.forest.arena.indices, b.forest.arena.parent? t = none →
          ∃ root ∈ b.forest.roots, b.forest.arena.representative t = .ok root ∧
            IsGreatest (b.forest.arena.datesBelow b.forest.envelopes t)
              (b.forest.arena.dateOf root)) ∧
        b.forest.roots.Pairwise fun i j => b.forest.arena.dateOf j ≤ b.forest.arena.dateOf i := by
  refine ⟨fun hsent => ?_, fun b hb => ?_⟩
  · obtain ⟨b, _, _, hb, _⟩ := run_eq_ok o m sent hsent
    exact ⟨b, hb⟩
  obtain ⟨r, s, hmade⟩ := made_of_run hb
  have hsound := hmade.forest_sound.arena
  refine ⟨hsound.latest, fun t ht hfree => ?_, ?_⟩
  · refine ⟨b.forest.arena.standIn t, hmade.mem_roots.2 ⟨t, mem_tops.2 ⟨ht, hfree⟩, rfl⟩,
      hsound.linked.representative_eq ht, ?_⟩
    -- the only child of a placeholder has all messages of the tree below it
    rw [datesBelow_eq_members, ← hsound.linked.members_standIn, ← datesBelow_eq_members]
    exact hsound.latest _ (hsound.linked.standIn_mem ht)
  · rw [hmade.roots_eq]
    apply (pairwise_roots _).imp
    intro i j hij
    rwa [hmade.arena.dateOf_eq, hmade.arena.dateOf_eq]

/-- The only child of a placeholder stands for the conversation, with the date of the latest message,
which came from the sent folder. -/
theorem run_latest_promoted :
    ∃ b, run {} (.ofEnvelopes [{ messageId := "a", inReplyTo := "x", date := -5 }])
        (.folder [{ messageId := "b", inReplyTo := "a", date := -2 }]) = .ok b ∧
      b.forest.roots = [.slot 0] ∧
      IsGreatest (b.forest.arena.datesBelow b.forest.envelopes (.slot 1)) (-2) := by
  obtain ⟨hok, hlatest⟩ := run_latest {}
    (.ofEnvelopes [{ messageId := "a", inReplyTo := "x", date := -5 }])
    (.folder [{ messageId := "b", inReplyTo := "a", date := -2 }])
  obtain ⟨b, hb⟩ := hok nofun
  have hvalue : (run {} (.ofEnvelopes [{ messageId := "a", inReplyTo := "x", date := -5 }])
      (.folder [{ messageId := "b", inReplyTo := "a", date := -2 }])).toOption.map (fun b =>
        (b.forest.roots, b.forest.arena.indices, b.forest.arena.dateOf (.slot 1))) =
      some ([.slot 0], [.slot 0, .slot 1, .slot 2], -2) := by cbv
  rw [hb] at hvalue
  simp only [Except.toOption, Option.map_some, Option.some.injEq, Prod.mk.injEq] at hvalue
  obtain ⟨hroots, hindices, hdate⟩ := hvalue
  have h := (hlatest b hb).1 (.slot 1) (by simp [hindices])
  rw [hdate] at h
  exact ⟨b, hb, hroots, h⟩

end Build

end MailThread
