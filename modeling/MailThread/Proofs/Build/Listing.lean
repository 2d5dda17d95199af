import MailThread.Proofs.Build.Run
import MailThread.Proofs.Forest.Listing
import Mathlib

namespace MailThread.Build

open Arena

/-- Both listings of a build succeed, also after further layouts. There is a line for each conversation
in which some message meets the filter, in the order that is asked for; the rows come in blocks, one
for each line, and in a block the rows of every tree stand together, siblings in their order. -/
theorem run_listed (o : BuildOptions) (m : Mailbox) (sent : SentFolder) :
    (sent ≠ .own → ∃ b, run o m sent = .ok b) ∧
      ∀ b, run o m sent = .ok b → ∀ (again : List Bool) (style : ListingStyle),
        ∃ f lines rows, b.forest.layOuts again = (f, none) ∧
          f.conversationLines style = .ok lines ∧ f.messageLines style = .ok rows ∧
          f.Listed style lines rows := by
  refine ⟨exists_run o m sent, fun b hb again style => ?_⟩
  obtain ⟨r, s, hmade⟩ := made_of_run hb
  obtain ⟨f, hf, hred⟩ := hmade.forest_sound.layOuts_spec again
  obtain ⟨lines, rows, hlines, hrows, hlisted⟩ := (hred.sound hmade.forest_sound).listed style
  exact ⟨f, lines, rows, hf, hlines, hrows, hlisted⟩

/-- Three replies to a message that never came, an answer to the first of them, and two more
conversations, one of which does not meet the filter. By date the first reply comes last, since the
answer to it is the latest message; by subject the second one comes first, whatever the case of its
letters. -/
theorem run_listed_sorted :
    ∃ b lines rows lines' rows',
      run {} (.ofEnvelopes [{ messageId := "a", inReplyTo := "x", date := 1, subject := "Banana" },
        { messageId := "b", inReplyTo := "x", date := 5, subject := "apple" },
        { messageId := "c", inReplyTo := "x", date := 3, subject := "Cherry" },
        { messageId := "d", date := 7, subject := "mango" },
        { messageId := "e", date := 8, subject := "fig" }])
        (.folder [{ messageId := "f", inReplyTo := "a", date := 9 }]) = .ok b ∧
      b.forest.arena.children (.slot 1) = .ok [.slot 0, .slot 2, .slot 3] ∧
      b.forest.conversationLines { now := 10, sort := some ⟨.date, .ascending⟩
                                   subsort := some ⟨.date, .ascending⟩, filter := "AN" } =
        .ok lines ∧
      b.forest.messageLines { now := 10, sort := some ⟨.date, .ascending⟩
                              subsort := some ⟨.date, .ascending⟩, filter := "AN" } = .ok rows ∧
      lines.map (·.root) = [.slot 4, .slot 1] ∧
      rows.map (·.container) = [.slot 4, .slot 3, .slot 2, .slot 0, .slot 6] ∧
      b.forest.conversationLines { now := 10, sort := some ⟨.subject, .ascending⟩
                                   subsort := some ⟨.subject, .ascending⟩ } = .ok lines' ∧
      b.forest.messageLines { now := 10, sort := some ⟨.subject, .ascending⟩
                              subsort := some ⟨.subject, .ascending⟩ } = .ok rows' ∧
      lines'.map (·.root) = [.slot 1, .slot 5, .slot 4] ∧
      rows'.map (·.container) = [.slot 2, .slot 0, .slot 6, .slot 3, .slot 5, .slot 4] := by
  generalize hm : Mailbox.ofEnvelopes [
    { messageId := "a", inReplyTo := "x", date := 1, subject := "Banana" },
    { messageId := "b", inReplyTo := "x", date := 5, subject := "apple" },
    { messageId := "c", inReplyTo := "x", date := 3, subject := "Cherry" },
    { messageId := "d", date := 7, subject := "mango" },
    { messageId := "e", date := 8, subject := "fig" }] = m
  generalize hsent : SentFolder.folder [{ messageId := "f", inReplyTo := "a", date := 9 }] = sent
  generalize hdate : ({ now := 10, sort := some ⟨.date, .ascending⟩
                        subsort := some ⟨.date, .ascending⟩, filter := "AN" } : ListingStyle) =
    byDate
  generalize hsubject : ({ now := 10, sort := some ⟨.subject, .ascending⟩
                           subsort := some ⟨.subject, .ascending⟩ } : ListingStyle) = bySubject
  have hvalue : (run {} m sent).toOption.map (fun b =>
      ((b.forest.arena.children (.slot 1)).toOption,
        ((b.forest.conversations byDate).map (·.map (·.root))).toOption,
        b.forest.rowsBelow byDate.subsort [.slot 4, .slot 1],
        ((b.forest.conversations bySubject).map (·.map (·.root))).toOption,
        b.forest.rowsBelow bySubject.subsort [.slot 1, .slot 5, .slot 4])) =
      some (some [.slot 0, .slot 2, .slot 3], some [.slot 4, .slot 1],
        [.slot 4, .slot 3, .slot 2, .slot 0, .slot 6], some [.slot 1, .slot 5, .slot 4],
        [.slot 2, .slot 0, .slot 6, .slot 3, .slot 5, .slot 4]) := by
    rw [← hm, ← hsent, ← hdate, ← hsubject]
    cbv
  obtain ⟨hok, hall⟩ := run_listed {} m sent
  obtain ⟨b, hb⟩ := hok fun hown => by
    rw [← hsent] at hown
    cases hown
  obtain ⟨_, lines, rows, hf, hlines, hrows, hlisted⟩ := hall b hb [] byDate
  cases hf
  obtain ⟨_, lines', rows', hf, hlines', hrows', hlisted'⟩ := hall b hb [] bySubject
  cases hf
  simp only [hb, Except.toOption, Option.map_some, Option.some.injEq, Prod.mk.injEq,
    Forest.map_root_conversationLines hlines, Forest.map_root_conversationLines hlines'] at hvalue
  obtain ⟨hkids, hroots, hcontainers, hroots', hcontainers'⟩ := hvalue
  have hchildren : b.forest.arena.children (.slot 1) = .ok [.slot 0, .slot 2, .slot 3] := by
    cases hc : b.forest.arena.children (.slot 1) with
    | error fault => simp [hc] at hkids
    | ok kids => simpa [hc] using hkids
  refine ⟨b, lines, rows, lines', rows', hb, hchildren, hlines, hrows, hroots, ?_, hlines', hrows',
    hroots', ?_⟩
  · rw [hlisted.map_container, hroots, hcontainers]
  · rw [hlisted'.map_container, hroots', hcontainers']

end MailThread.Build
