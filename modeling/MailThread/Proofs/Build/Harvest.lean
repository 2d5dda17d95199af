import MailThread.Proofs.Arena.Calls
import MailThread.Proofs.Build.Run
import MailThread.Proofs.Forest.Harvest
import Mathlib

namespace MailThread.Build

open Arena

theorem Made.harvest {o : BuildOptions} {m : Mailbox} {sent : SentFolder} {b : Build}
    {r s : Assembly} {f : Forest} (h : Made o m sent b r s) (hred : b.forest.Redrawn f) :
    f.arena.roots = .ok f.roots ∧ f.arena.Harvest f.roots := by
  have hlinked := h.sound.linked
  have hroots : f.arena.roots = .ok f.roots := by
    rw [hred.roots, (h.arena.trans hred.arena).roots_eq hlinked, h.roots]
  obtain ⟨rs, hrs, hharvest⟩ := (h.arena.trans hred.arena).sameLinks.linked hlinked |>.harvest
  cases hroots.symm.trans hrs
  exact ⟨hroots, hharvest⟩

/-- The links of an arena fit together after any calls, and where they do, the harvest of its roots
succeeds: it has one entry for each container without a parent. The roots of every build, also after
further layouts, are the harvest of its arena. All of them have messages, those that are placeholders
have several replies, and a listing by date is the one without any order. -/
theorem run_harvest (o : BuildOptions) (m : Mailbox) (sent : SentFolder) :
    (∀ calls, (afterAll calls).Linked) ∧
      (∀ a : Arena, a.Linked → ∃ rs, a.roots = .ok rs ∧ a.Harvest rs) ∧
      (sent ≠ .own → ∃ b, run o m sent = .ok b) ∧
      ∀ b, run o m sent = .ok b → ∀ again : List Bool,
        ∃ f, b.forest.layOuts again = (f, none) ∧ f.arena.Linked ∧ f.arena.roots = .ok f.roots ∧
          (∀ r ∈ f.roots, ∃ ms, f.messages r = .ok ms ∧ ms ≠ []) ∧
          (∀ r ∈ f.roots, f.arena.message? r = none →
            ∃ kids, f.arena.children r = .ok kids ∧ 2 ≤ kids.length) ∧
          ∀ style : ListingStyle, ∃ lines rows,
            f.conversationLines { style with sort := none } = .ok lines ∧
            f.conversationLines { style with sort := some ⟨.date, .descending⟩ } = .ok lines ∧
            f.messageLines { style with sort := none } = .ok rows ∧
            f.messageLines { style with sort := some ⟨.date, .descending⟩ } = .ok rows := by
  refine ⟨linked_afterAll, fun a ha => ha.harvest, exists_run o m sent, fun b hb again => ?_⟩
  obtain ⟨r, s, hmade⟩ := made_of_run hb
  obtain ⟨f, hf, hred⟩ := hmade.forest_sound.layOuts_spec again
  have hsound := hred.sound hmade.forest_sound
  obtain ⟨hroots, hharvest⟩ := hmade.harvest hred
  refine ⟨f, hf, hsound.arena.linked, hroots, fun _ => hsound.messages_ne_nil,
    fun _ => hsound.two_le_children hharvest, fun style => ?_⟩
  obtain ⟨lines, rows, hlines, hrows, _⟩ := hsound.listed { style with sort := none }
  exact ⟨lines, rows, hlines, (hsound.conversationLines_latest hharvest style).trans hlines, hrows,
    (hsound.messageLines_latest hharvest style).trans hrows⟩

/-- In an arena the only child of a placeholder has the date of a container between the two; it comes
first, because the placeholder does. In a build a placeholder with two replies is a root and comes
after a later message. -/
theorem run_harvest_promoted :
    (∃ a, a = afterAll [.append, .append, .bind (.slot 1) (.slot 1) 5, .append,
        .bind (.slot 2) (.slot 0) 5, .link (.slot 2) (.slot 0)] ∧
      a.roots = .ok [.slot 2, .slot 1] ∧ a.Harvest [.slot 2, .slot 1]) ∧
    ∃ b lines, run {} (.ofEnvelopes [{ messageId := "a", inReplyTo := "x", date := 3 },
        { messageId := "b", inReplyTo := "x", date := 1 }, { messageId := "c", date := 7 }])
        (.folder []) = .ok b ∧
      b.forest.roots = [.slot 3, .slot 1] ∧
      (∃ kids, b.forest.arena.children (.slot 1) = .ok kids ∧ 2 ≤ kids.length) ∧
      b.forest.conversationLines { now := 0 } = .ok lines ∧
      b.forest.conversationLines { now := 0, sort := some ⟨.date, .descending⟩ } = .ok lines := by
  generalize hm : Mailbox.ofEnvelopes [{ messageId := "a", inReplyTo := "x", date := 3 },
    { messageId := "b", inReplyTo := "x", date := 1 }, { messageId := "c", date := 7 }] = m
  obtain ⟨hlinked, hharvest, hok, hall⟩ := run_harvest {} m (.folder [])
  refine ⟨?_, ?_⟩
  · obtain ⟨rs, hroots, hrs⟩ := hharvest _ (hlinked [.append, .append,
      .bind (.slot 1) (.slot 1) 5, .append, .bind (.slot 2) (.slot 0) 5, .link (.slot 2) (.slot 0)])
    have hvalue : (afterAll [.append, .append, .bind (.slot 1) (.slot 1) 5, .append,
        .bind (.slot 2) (.slot 0) 5, .link (.slot 2) (.slot 0)]).roots.toOption =
        some [.slot 2, .slot 1] := by cbv
    rw [hroots] at hvalue
    cases hvalue
    exact ⟨_, rfl, hroots, hrs⟩
  · have hvalue : (run {} m (.folder [])).toOption.map (fun b =>
        (b.forest.roots, b.forest.arena.message? (.slot 1))) =
        some ([.slot 3, .slot 1], none) := by
      rw [← hm]
      cbv
    obtain ⟨b, hb⟩ := hok (by simp)
    obtain ⟨f, hf, _, _, _, hkids, hlisted⟩ := hall b hb []
    cases hf
    rw [hb] at hvalue
    simp only [Except.toOption, Option.map_some, Option.some.injEq, Prod.mk.injEq] at hvalue
    obtain ⟨hroots, hmessage⟩ := hvalue
    obtain ⟨lines, _, hlines, hlatest, _⟩ := hlisted { now := 0 }
    exact ⟨b, lines, hb, hroots, hkids _ (by simp [hroots]) hmessage, hlines, hlatest⟩

end MailThread.Build
