import MailThread.Proofs.Build.Run
import Mathlib

namespace MailThread.Build

open Assembly Assembling

variable {o : BuildOptions} {m m' : Mailbox} {sent sent' : SentFolder} {b b' : Build}
  {r r' s s' : Assembly}

/-- The assembly that comes out of a mailbox. -/
def received (m : Mailbox) : Assembly :=
  ({} : Assembly).after (m.withoutCopies.envelopes.toList.forM receive)

/-- The sent messages that a build takes over, each with the assembly that it meets. -/
def joined (o : BuildOptions) (m : Mailbox) (sent : SentFolder) : List (Assembly × Envelope) :=
  (received m).takenOver (offered o.mergeSent sent (received m))

/-- The mailbox of a build, with the sent messages that it takes over as messages of its own. -/
def plain (o : BuildOptions) (m : Mailbox) (sent : SentFolder) : Mailbox :=
  .ofEnvelopes (m.withoutCopies.envelopes.toList ++ (joined o m sent).map Prod.snd)

namespace Made

variable (h : Made o m sent b r s)
include h

theorem received_eq : received m = r := after_of_run h.passes.receives

theorem contents :
    b.mailbox.contents = (m.withoutCopies.envelopes.toList.map fun e => (e.untied, false)) ++
      (joined o m sent).map fun q => (q.2.untied, true) := by
  obtain ⟨t, ht, hcontents⟩ :=
    run_mergeFolder_contents h.passes.received_sound (offered o.mergeSent sent r)
  cases ht.symm.trans h.passes.joins
  rw [h.mailbox, hcontents, h.passes.received.contents, joined, h.received_eq]
  simp [Mailbox.contents]

theorem forest_eq (h' : Made o m' sent' b' r' s') (hs : s.Alike s') : b'.forest = b.forest := by
  have hroots := h'.roots
  rw [hs.arena, h.roots] at hroots
  have hlaid := h'.laidOut
  rw [hs.arena, hs.envelopes, ← Except.ok.inj hroots, h.laidOut] at hlaid
  exact (Prod.mk.inj hlaid).1.symm

end Made

/-- A build with a sent folder whose messages, as far as they are taken over, answer their parents
gives the forest of the mailbox that holds these messages behind its own. -/
theorem run_plain (o : BuildOptions) (m : Mailbox) (sent : SentFolder)
    (h : ∀ q ∈ joined o m sent, q.1.Answers q.2) :
    (sent ≠ .own → ∃ b, run o m sent = .ok b) ∧
      ((joined o m sent).map Prod.snd).Sublist (offered o.mergeSent sent (received m)) ∧
      ∀ b, run o m sent = .ok b →
        (b.mailbox.contents = (m.withoutCopies.envelopes.toList.map fun e => (e.untied, false)) ++
          (joined o m sent).map fun q => (q.2.untied, true)) ∧
        ∃ b', run o (plain o m sent) .absent = .ok b' ∧ b'.forest = b.forest ∧
          b'.mailbox.envelopes = b.mailbox.envelopes := by
  refine ⟨fun hsent => ?_, takenOver_sublist _ _, fun b hb => ?_⟩
  · obtain ⟨b, _, _, hb, _⟩ := run_eq_ok o m sent hsent
    exact ⟨b, hb⟩
  obtain ⟨r, s, hmade⟩ := made_of_run hb
  obtain ⟨b', r', s', hb', hmade'⟩ := run_eq_ok o (plain o m sent) .absent nofun
  refine ⟨hmade.contents, b', hb', ?_⟩
  have halike : s.Alike s' := by
    rw [joined, hmade.received_eq] at h
    obtain ⟨t, t', ht, ht', halike⟩ :=
      run_mergeFolder_alike hmade.passes.received_sound _ h ⟨rfl, rfl⟩
    cases ht.symm.trans hmade.passes.joins
    have hreceives := hmade'.passes.receives
    rw [plain, Mailbox.envelopes_ofEnvelopes, joined, hmade.received_eq, List.forM_eq_forM,
      List.forM_append] at hreceives
    have hr := (run_bind_ok hmade.passes.receives).symm.trans hreceives
    cases ht'.symm.trans hr
    rwa [hmade'.eq_of_absent rfl]
  refine ⟨hmade.forest_eq hmade' halike, ?_⟩
  rw [hmade'.mailbox, hmade.mailbox]
  exact halike.envelopes

/-- Of four sent messages one fills a placeholder and one without an id replies to a message of the
mailbox; the others are there already, or touch nothing. -/
theorem run_plain_exchange :
    ∃ b b', run {} (.ofEnvelopes [{ messageId := "a", date := 1 },
        { messageId := "c", inReplyTo := "b", date := 9 }])
        (.folder [{ messageId := "b", inReplyTo := "a", date := 5 },
          { messageId := "c", inReplyTo := "a", date := 7 }, { messageId := "z", date := 3 },
          { inReplyTo := "c", date := 12 }]) = .ok b ∧
      run {} (.ofEnvelopes [{ messageId := "a", date := 1 },
        { messageId := "c", inReplyTo := "b", date := 9 },
        { messageId := "b", inReplyTo := "a", date := 5 }, { inReplyTo := "c", date := 12 }])
        .absent = .ok b' ∧
      b'.forest = b.forest := by
  generalize hm : Mailbox.ofEnvelopes [{ messageId := "a", date := 1 },
    { messageId := "c", inReplyTo := "b", date := 9 }] = m
  generalize hsent : SentFolder.folder [{ messageId := "b", inReplyTo := "a", date := 5 },
    { messageId := "c", inReplyTo := "a", date := 7 }, { messageId := "z", date := 3 },
    { inReplyTo := "c", date := 12 }] = sent
  have hjoined : (joined {} m sent).map Prod.snd =
      [{ messageId := "b", inReplyTo := "a", date := 5 }, { inReplyTo := "c", date := 12 }] := by
    rw [← hm, ← hsent]
    cbv
  have hanswers : (joined {} m sent).all (fun q => decide (q.1.Answers q.2)) = true := by
    rw [← hm, ← hsent]
    cbv
  obtain ⟨hok, _, hplain⟩ := run_plain {} m sent fun q hq =>
    of_decide_eq_true (List.all_eq_true.1 hanswers q hq)
  obtain ⟨b, hb⟩ := hok fun hown => by
    rw [← hsent] at hown
    cases hown
  obtain ⟨_, b', hb', hforest, _⟩ := hplain b hb
  rw [plain, hjoined, ← hm, Mailbox.envelopes_ofEnvelopes] at hb'
  exact ⟨b, b', hb, hb', hforest⟩

end MailThread.Build
