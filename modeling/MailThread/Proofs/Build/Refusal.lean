import MailThread.Proofs.Assembly.Replies
import MailThread.Proofs.Build.Sent
import Mathlib

namespace MailThread

def Envelope.answersItself (e : Envelope) : Bool :=
  e.inReplyTo ≠ .empty && e.inReplyTo = e.messageId

namespace Build

open Assembly Assembling

variable {o : BuildOptions} {m : Mailbox} {sent : SentFolder} {b : Build} {r s : Assembly}
  {q : Assembly × Envelope}

/-- The number of messages in containers that name a message other than themselves as their parent and
have no parent. A received message names its parent reference; a copy names the message it replies to,
if that was known when it came. -/
def unlinked (b : Build) (copies : List (Assembly × Envelope)) : Nat :=
  b.forest.arena.refusals b.mailbox + copies.countP fun q =>
    (q.1.answersKnown q.2 && q.2.inReplyTo ≠ q.2.messageId) &&
      b.forest.arena.freeAt b.mailbox q.1.mailbox.size

namespace Made

variable (h : Made o m sent b r s)
include h

theorem refusals_eq : b.forest.arena.refusals b.mailbox = s.tally.refused := by
  obtain ⟨hrefusals, htally⟩ := h.passes.merged.refusals_merged h.passes.received_sound
  rw [h.mailbox, h.arena.refusals_eq, htally, ← h.passes.received.refusals]
  exact hrefusals

theorem refused_sent : s.sent.refused = (joined o m sent).countP fun q =>
    q.1.answersKnown q.2 && b.forest.arena.freeAt b.mailbox q.1.mailbox.size := by
  have hcount := refused_eq_countP h.passes.received_sound h.passes.joins
  have hsent : r.sent = {} := h.passes.received.sent_eq
  simp only [hsent, zero_add, joined, h.received_eq, h.mailbox, h.arena.freeAt_eq] at hcount ⊢
  exact hcount

/-- Of the copies whose links are refused the others are those that reply to themselves. -/
theorem countP_refused :
    ((joined o m sent).countP fun q =>
      q.1.answersKnown q.2 && b.forest.arena.freeAt b.mailbox q.1.mailbox.size) =
    ((joined o m sent).countP fun q =>
      (q.1.answersKnown q.2 && q.2.inReplyTo ≠ q.2.messageId) &&
        b.forest.arena.freeAt b.mailbox q.1.mailbox.size) +
    (joined o m sent).countP fun q => q.2.answersItself := by
  rw [List.countP_eq_countP_filter_add _ _ fun q => q.2.inReplyTo ≠ q.2.messageId,
    List.countP_filter, List.countP_filter]
  congr 1
  · exact List.countP_congr fun q _ => by rw [Bool.and_right_comm]
  · refine List.countP_congr fun q hq => ?_
    rw [joined, h.received_eq] at hq
    have hrefused := refused_of_self h.passes.received_sound h.passes.joins hq
    simp only [Envelope.answersItself, answersKnown, h.mailbox, h.arena.freeAt_eq, ne_eq, decide_not,
      Bool.not_not, Bool.and_eq_true, Bool.not_eq_true', decide_eq_false_iff_not,
      decide_eq_true_eq] at hrefused ⊢
    constructor
    · rintro ⟨⟨⟨hne, _⟩, _⟩, hself⟩
      exact ⟨hne, hself⟩
    · rintro ⟨hne, hself⟩
      exact ⟨hrefused hself hne, hself⟩

theorem refused_eq_unlinked_add :
    b.counts.refused =
      b.unlinked (joined o m sent) + (joined o m sent).countP fun q => q.2.answersItself := by
  rw [unlinked, h.refusals_eq, add_assoc, ← h.countP_refused, ← h.refused_sent, h.counts]
  rfl

end Made

/-- In every build the refused links are those of the messages in containers that name another message
as their parent and have none, and those of the copies that reply to themselves. There are no others
just when no copy replies to itself. -/
theorem run_refused (o : BuildOptions) (m : Mailbox) (sent : SentFolder) :
    (sent ≠ .own → ∃ b, run o m sent = .ok b) ∧
      ∀ b, run o m sent = .ok b →
        (∀ q ∈ joined o m sent, ∃ i,
          b.mailbox.entries[q.1.mailbox.size]? = some (entryOf q.2 (some i) true)) ∧
        b.counts.refused = b.unlinked (joined o m sent) +
          ((joined o m sent).countP fun q => q.2.answersItself) ∧
        (b.counts.refused = b.unlinked (joined o m sent) ↔
          ∀ q ∈ joined o m sent, ¬ q.2.answersItself) := by
  refine ⟨exists_run o m sent, fun b hb => ?_⟩
  obtain ⟨r, s, hmade⟩ := made_of_run hb
  have hcount := hmade.refused_eq_unlinked_add
  refine ⟨fun q hq => ?_, hcount, ?_⟩
  · rw [joined, hmade.received_eq] at hq
    rw [hmade.mailbox]
    exact entry_of_mem hmade.passes.received_sound hmade.passes.joins hq
  · rw [hcount, Nat.add_eq_left, List.countP_eq_zero]

/-- A circle in the mailbox, and two placeholders that sent messages fill: one of them replies to the
message below it, and the other one to itself. -/
theorem run_refused_circles :
    ∃ m sent b, m = .ofEnvelopes [{ messageId := "a", inReplyTo := "x" },
        { messageId := "b", inReplyTo := "c" }, { messageId := "c", inReplyTo := "b" },
        { messageId := "d", inReplyTo := "y" }] ∧
      sent = .folder [{ messageId := "x", inReplyTo := "a" },
        { messageId := "y", inReplyTo := "y" }, { messageId := "z", inReplyTo := "d" }] ∧
      run {} m sent = .ok b ∧ b.unlinked (joined {} m sent) = 2 ∧ b.counts.refused = 2 + 1 := by
  generalize hm : Mailbox.ofEnvelopes _ = m
  generalize hsent : SentFolder.folder _ = sent
  have hvalue : (run {} m sent).toOption.map (fun b => b.unlinked (joined {} m sent)) = some 2 := by
    rw [← hm, ← hsent]
    cbv
  have hself : ((joined {} m sent).countP fun q => q.2.answersItself) = 1 := by
    rw [← hm, ← hsent]
    cbv
  obtain ⟨hok, hrefused⟩ := run_refused {} m sent
  obtain ⟨b, hb⟩ := hok fun hown => by
    rw [← hsent] at hown
    cases hown
  obtain ⟨_, hcount, _⟩ := hrefused b hb
  rw [hb] at hvalue
  have hunlinked : b.unlinked (joined {} m sent) = 2 := Option.some.inj hvalue
  exact ⟨m, sent, b, rfl, rfl, hb, hunlinked, by rw [hcount, hunlinked, hself]⟩

/-- A sent message that replies to itself and fills a placeholder counts as a refused link, although no
message of the build names another one and stays without a parent. -/
theorem run_refused_itself :
    ∃ m sent b, m = .ofEnvelopes [{ messageId := "a", inReplyTo := "x" }] ∧
      sent = .folder [{ messageId := "x", inReplyTo := "x" }] ∧
      run {} m sent = .ok b ∧ b.unlinked (joined {} m sent) = 0 ∧ b.counts.refused = 1 := by
  generalize hm : Mailbox.ofEnvelopes _ = m
  generalize hsent : SentFolder.folder _ = sent
  have hvalue : (run {} m sent).toOption.map (fun b =>
      (b.unlinked (joined {} m sent), b.counts.refused)) = some (0, 1) := by
    rw [← hm, ← hsent]
    cbv
  obtain ⟨b, hb⟩ := exists_run {} m sent fun hown => by
    rw [← hsent] at hown
    cases hown
  rw [hb] at hvalue
  obtain ⟨hunlinked, hrefused⟩ := Prod.mk.inj (Option.some.inj hvalue)
  exact ⟨m, sent, b, rfl, rfl, hb, hunlinked, hrefused⟩

end Build

end MailThread
