import MailThread.Proofs.Build.Rows
import MailThread.Proofs.Forest.Subjects
import Mathlib

namespace MailThread

open Arena

namespace Forest

variable {f g : Forest}

/-- A forest that is laid out twice has the same rows in the same places. -/
theorem Redrawn.rows_eq (h : f.Redrawn g) (hl : f.Laid) (hl' : g.Laid) :
    g.order = f.order ∧ ∀ i, g.arena.indentationOf i = f.arena.indentationOf i ∧
      g.arena.shownParent? i = f.arena.shownParent? i := by
  refine ⟨?_, fun i => ?_⟩
  · rw [hl.order, hl'.order, h.visits_eq]
    simp only [h.arena.message?_eq]
  · by_cases hi : i ∈ f.arena.indices
    · have hi' := h.arena.mem_indices.2 hi
      rw [hl.indentation i hi, hl'.indentation i hi', hl.shownParent i hi, hl'.shownParent i hi',
        h.arena.messagesAbove_eq, h.arena.messageParent?_eq]
      exact ⟨rfl, rfl⟩
    · have hnone : f.arena.get? i = none := by
        by_contra hne
        exact hi (mem_indices.2 (Option.ne_none_iff_exists'.1 hne))
      have hnone' : g.arena.get? i = none := by
        have hcore := h.arena.core i
        rw [hnone] at hcore
        simpa using hcore
      simp [indentationOf, shownParent?, hnone, hnone']

end Forest

namespace Build

variable {o : BuildOptions} {m : Mailbox} {sent : SentFolder} {b : Build} {r s : Assembly}

theorem Made.headed (h : Made o m sent b r s) : b.forest.Headed o.suppressRepeated := by
  have hback := h.forest.symm
  exact (hback.sound h.forest_sound).layOut_headed
    (hback.harvested h.forest_sound h.harvested) h.laidOut h.forest h.laid

/-- Further layouts of a build, as many as there may be, leave messages, parents, children and dates
alone, and the rows with their order, levels and shown parents stay those of the build. What rows show
of their subjects is told by the last layout: the first row of a conversation shows its subject, and
another one does not if subjects are suppressed and it only repeats the first. -/
theorem run_relaid (o : BuildOptions) (m : Mailbox) (sent : SentFolder) :
    (sent ≠ .own → ∃ b, run o m sent = .ok b) ∧
      ∀ b, run o m sent = .ok b → ∀ again : List Bool,
        ∃ f, b.forest.layOuts again = (f, none) ∧
          f.envelopes = b.forest.envelopes ∧ f.roots = b.forest.roots ∧
          (∀ i, f.arena.message? i = b.forest.arena.message? i ∧
            f.arena.parent? i = b.forest.arena.parent? i ∧
            f.arena.children i = b.forest.arena.children i ∧
            f.arena.dateOf i = b.forest.arena.dateOf i) ∧
          (f.order = b.forest.order ∧ ∀ i,
            f.arena.indentationOf i = b.forest.arena.indentationOf i ∧
            f.arena.shownParent? i = b.forest.arena.shownParent? i) ∧
          f.order.Nodup ∧ f.Headed (again.getLast?.getD o.suppressRepeated) := by
  refine ⟨exists_run o m sent, fun b hb again => ?_⟩
  obtain ⟨r, s, hmade⟩ := made_of_run hb
  have hsound := hmade.forest_sound
  obtain ⟨f, hf, hred, hlaid, hheaded⟩ :=
    hsound.layOuts_headed hmade.harvested hmade.laid hmade.headed again
  refine ⟨f, hf, hred.envelopes, hred.roots, fun i => ?_, hred.rows_eq hmade.laid hlaid,
    (hred.sound hsound).nodup_order (hred.harvested hsound hmade.harvested) hlaid, hheaded⟩
  exact ⟨hred.arena.message?_eq i, hred.arena.sameLinks.parent?_eq i,
    hred.arena.sameLinks.children_eq i, hred.arena.dateOf_eq i⟩

/-- A reply that repeats the subject of its conversation under a mark, and another one with a subject
of its own. Of two orders of layouts the one that suppresses last hides the first reply's subject. -/
theorem run_relaid_reply :
    ∃ b f g, run {} (.ofEnvelopes [{ messageId := "a", subject := "Plan" },
        { messageId := "b", inReplyTo := "a", subject := "Re: Plan" },
        { messageId := "c", inReplyTo := "b", subject := "Costs" },
        { messageId := "d", inReplyTo := "x", subject := "Plan" }]) .absent = .ok b ∧
      b.forest.layOuts [true, false] = (f, none) ∧ b.forest.layOuts [false, true] = (g, none) ∧
      f.order = g.order ∧ f.arena.indentationOf (.slot 2) = 2 ∧
      f.order.map f.arena.showsSubject = [true, true, true, true] ∧
      g.order.map g.arena.showsSubject = [true, false, true, true] ∧
      f.Headed false ∧ g.Headed true := by
  generalize hm : Mailbox.ofEnvelopes [{ messageId := "a", subject := "Plan" },
    { messageId := "b", inReplyTo := "a", subject := "Re: Plan" },
    { messageId := "c", inReplyTo := "b", subject := "Costs" },
    { messageId := "d", inReplyTo := "x", subject := "Plan" }] = m
  have hvalue : (run {} m).toOption.map (fun b =>
      let f := (b.forest.layOuts [true, false]).1
      let g := (b.forest.layOuts [false, true]).1
      (b.forest.arena.indentationOf (.slot 2), f.order.map f.arena.showsSubject,
        g.order.map g.arena.showsSubject)) =
      some (2, [true, true, true, true], [true, false, true, true]) := by
    rw [← hm]
    cbv
  obtain ⟨hok, hrelaid⟩ := run_relaid {} m .absent
  obtain ⟨b, hb⟩ := hok (by simp)
  obtain ⟨f, hf, _, _, _, ⟨horder, hplace⟩, _, hheaded⟩ := hrelaid b hb [true, false]
  obtain ⟨g, hg, _, _, _, ⟨horder', _⟩, _, hheaded'⟩ := hrelaid b hb [false, true]
  rw [hb] at hvalue
  simp only [Except.toOption, Option.map_some, hf, hg, Option.some.injEq, Prod.mk.injEq] at hvalue
  obtain ⟨hindentation, hshown, hshown'⟩ := hvalue
  exact ⟨b, f, g, hb, hf, hg, horder.trans horder'.symm, (hplace _).1.trans hindentation, hshown,
    hshown', hheaded, hheaded'⟩

end Build

end MailThread
