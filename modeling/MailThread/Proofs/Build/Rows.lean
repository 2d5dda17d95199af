import MailThread.Proofs.Build.Run
import MailThread.Proofs.Forest.Rows
import Mathlib

namespace MailThread.Build

open Arena

variable {o : BuildOptions} {m : Mailbox} {sent : SentFolder} {b : Build} {r s : Assembly}

theorem Made.laid (h : Made o m sent b r s) : b.forest.Laid := by
  have hback := h.forest.symm
  obtain ⟨g, hg, _, hlaid⟩ := (hback.sound h.forest_sound).layOut_laid
    (hback.harvested h.forest_sound h.harvested) o.suppressRepeated
  cases h.laidOut.symm.trans hg
  exact hlaid

/-- In every build, and after any number of further layouts, a row shows the parent of its container
unless that is a placeholder, it stands in as far as there are messages above the container, and the
parent it shows is the nearest row before it that stands in less far. -/
theorem run_rows (o : BuildOptions) (m : Mailbox) (sent : SentFolder) :
    (sent ≠ .own → ∃ b, run o m sent = .ok b) ∧
      ∀ b, run o m sent = .ok b → ∀ again : List Bool,
        ∃ f, b.forest.layOuts again = (f, none) ∧ f.order.Nodup ∧ ∀ c ∈ f.order,
          (f.arena.shownParent? c = none ↔
            f.arena.parent? c = none ∨
              ∃ p, f.arena.parent? c = some p ∧ f.arena.message? p = none) ∧
          (f.arena.indentationOf c = 0 ↔ f.arena.shownParent? c = none) ∧
          f.arena.indentationOf c = (f.arena.messagesAbove c).ncard ∧
          ∀ n : Nat, f.arena.indentationOf c = n → 0 < n →
            ∃ p before between behind, f.arena.shownParent? c = some p ∧
              f.arena.indentationOf p = ((n - 1 : Nat) : Rat) ∧
              f.order = before ++ p :: between ++ c :: behind ∧
              ∀ j ∈ between, (n : Rat) ≤ f.arena.indentationOf j := by
  refine ⟨exists_run o m sent, fun b hb again => ?_⟩
  obtain ⟨r, s, hmade⟩ := made_of_run hb
  obtain ⟨f, hf, hred, hlaid⟩ :=
    hmade.forest_sound.layOuts_laid hmade.harvested hmade.laid again
  have hsound := hred.sound hmade.forest_sound
  have hharvested := hred.harvested hmade.forest_sound hmade.harvested
  refine ⟨f, hf, hsound.nodup_order hharvested hlaid, fun c hc => ?_⟩
  obtain ⟨_, hm⟩ := (hsound.mem_order hharvested hlaid).1 hc
  have hca := mem_indices_of_message? hm
  have hzero := hsound.indentationOf_eq_zero_iff hlaid hca
  refine ⟨?_, hzero, hlaid.indentation c hca, fun n hn hpos => ?_⟩
  · rw [hlaid.shownParent c hca, messageParent?_eq_none_iff]
  have hne : f.arena.shownParent? c ≠ none := fun hnone => by
    rw [← hzero, hn, Nat.cast_eq_zero] at hnone
    omega
  obtain ⟨p, hp⟩ := Option.ne_none_iff_exists'.1 hne
  obtain ⟨hlevel, before, between, behind, horder, hbetween⟩ :=
    hsound.exists_row_before hharvested hlaid hc hp
  refine ⟨p, before, between, behind, hp, ?_, horder, fun j hj => hn ▸ hbetween j hj⟩
  rw [Nat.cast_pred hpos, ← hn, hlevel]
  ring

/-- Two replies to a message that never came, a sent reply to the first of them, and two more below
that: the row of the last one shows the sent message, which stands two rows before it. -/
theorem run_rows_thread :
    ∃ b before between behind,
      run {} (.ofEnvelopes [{ messageId := "a", inReplyTo := "x" },
        { messageId := "b", inReplyTo := "x" }, { messageId := "d", inReplyTo := "c" },
        { messageId := "e", inReplyTo := "c" }])
        (.folder [{ messageId := "c", inReplyTo := "a" }]) = .ok b ∧
      b.forest.arena.indentationOf (.slot 5) = 2 ∧
      b.forest.arena.shownParent? (.slot 5) = some (.slot 4) ∧
      b.forest.order = before ++ .slot 4 :: between ++ .slot 5 :: behind ∧
      ∀ j ∈ between, 2 ≤ b.forest.arena.indentationOf j := by
  generalize hm : Mailbox.ofEnvelopes [{ messageId := "a", inReplyTo := "x" },
    { messageId := "b", inReplyTo := "x" }, { messageId := "d", inReplyTo := "c" },
    { messageId := "e", inReplyTo := "c" }] = m
  generalize hsent : SentFolder.folder [{ messageId := "c", inReplyTo := "a" }] = sent
  have hvalue : (run {} m sent).toOption.map (fun b =>
      (b.forest.order, b.forest.arena.indentationOf (.slot 5),
        b.forest.arena.shownParent? (.slot 5))) =
      some ([.slot 0, .slot 4, .slot 3, .slot 5, .slot 2], 2, some (.slot 4)) := by
    rw [← hm, ← hsent]
    cbv
  obtain ⟨hok, hrows⟩ := run_rows {} m sent
  obtain ⟨b, hb⟩ := hok fun hown => by
    rw [← hsent] at hown
    cases hown
  rw [hb] at hvalue
  simp only [Except.toOption, Option.map_some, Option.some.injEq, Prod.mk.injEq] at hvalue
  obtain ⟨horder, hindentation, hshown⟩ := hvalue
  obtain ⟨f, hf, _, hrow⟩ := hrows b hb []
  cases hf
  obtain ⟨_, _, _, hnearest⟩ := hrow (.slot 5) (by simp [horder])
  obtain ⟨p, before, between, behind, hp, _, hsplit, hbetween⟩ :=
    hnearest 2 hindentation (by decide)
  cases hshown.symm.trans hp
  exact ⟨b, before, between, behind, hb, hindentation, hshown, hsplit, hbetween⟩

end MailThread.Build
