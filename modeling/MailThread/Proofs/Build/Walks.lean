import MailThread.Proofs.Build.Rows
import MailThread.Proofs.Forest.Audit
import MailThread.Proofs.Forest.Walks
import MailThread.Proofs.Listing.Width
import Mathlib

namespace MailThread.Build

open Arena

/-- In every build, and after any number of further layouts, the row order is the preorder of the trees
below the roots, placeholders left out. The messages of the conversations come in that order, and so do
the rows of a listing without any order and term: each stands in as far as its container, and where the
container shows no subject the row has none. -/
theorem run_preorder (o : BuildOptions) (m : Mailbox) (sent : SentFolder) :
    (sent ≠ .own → ∃ b, run o m sent = .ok b) ∧
      ∀ b, run o m sent = .ok b → ∀ again : List Bool,
        ∃ f trees blocks, b.forest.layOuts again = (f, none) ∧
          (∀ ts, List.Forall₂ f.arena.Preorder f.roots ts ↔ ts = trees) ∧
          f.order = trees.flatten.filter (fun i => (f.arena.message? i).isSome) ∧
          f.roots.mapM f.messages = .ok blocks ∧
          blocks.flatten.map some = f.order.map f.arena.message? ∧
          ∀ now width window : Rat, ∃ rows,
            f.messageLines { now, subjectWidth := width, windowDays := window } = .ok rows ∧
            rows.map (·.container) = f.order ∧
            ∀ row ∈ rows, ∃ c, f.arena.get? row.container = some c ∧
              c.message = some row.envelope ∧ row.indentation = c.indentation ∧
              row.subject =
                if c.showsSubject then Subject.cut (subjectAt f.envelopes row.envelope) width
                else .empty := by
  refine ⟨exists_run o m sent, fun b hb again => ?_⟩
  obtain ⟨r, s, hmade⟩ := made_of_run hb
  obtain ⟨f, hf, hred, hlaid⟩ :=
    hmade.forest_sound.layOuts_laid hmade.harvested hmade.laid again
  have hsound := hred.sound hmade.forest_sound
  have horder := hlaid.order_eq_trees
  obtain ⟨blocks, hblocks, hmessages⟩ := hsound.mapM_messages
  refine ⟨f, f.trees, blocks, hf, fun ts => hsound.forall₂_preorder_iff, horder, hblocks, ?_,
    fun now width window => ?_⟩
  · rw [hmessages, map_some_filterMap, ← horder]
  obtain ⟨rows, hrows, heq⟩ := hsound.messageLines_plain
    (o := { now, subjectWidth := width, windowDays := window }) rfl rfl rfl
  refine ⟨rows, hrows, ?_, fun row hrow => ?_⟩
  · rw [heq, f.map_container_lines, ← horder]
  · rw [heq, List.mem_filterMap] at hrow
    obtain ⟨i, _, hline⟩ := hrow
    obtain ⟨rfl, c, hc⟩ := Forest.shown_of_messageLine? hline
    exact ⟨c, hc⟩

/-- Two replies to a message that never came and a sent reply to the first of them, laid out once more:
the second reply comes last, and its row does not repeat the subject of the first. -/
theorem run_preorder_siblings :
    ∃ b f tree rows,
      run {} (.ofEnvelopes [{ messageId := "a", inReplyTo := "x", subject := "Plan" },
        { messageId := "b", inReplyTo := "x", subject := "Re: Plan" }])
        (.folder [{ messageId := "c", inReplyTo := "a", subject := "q" }]) = .ok b ∧
      b.forest.layOuts [true] = (f, none) ∧ f.arena.Preorder (.slot 1) tree ∧
      f.order = tree.filter (fun i => (f.arena.message? i).isSome) ∧
      f.messageLines { now := 0, subjectWidth := 50, windowDays := 7 } = .ok rows ∧
      rows.map (·.container) = [.slot 0, .slot 3, .slot 2] ∧
      ∃ row ∈ rows, row.container = .slot 2 ∧ row.subject = .empty := by
  generalize hm : Mailbox.ofEnvelopes [
    { messageId := "a", inReplyTo := "x", subject := "Plan" },
    { messageId := "b", inReplyTo := "x", subject := "Re: Plan" }] = m
  generalize hsent : SentFolder.folder [
    { messageId := "c", inReplyTo := "a", subject := "q" }] = sent
  have hvalue : (run {} m sent).toOption.map (fun b =>
      let f := (b.forest.layOuts [true]).1
      (f.roots, f.order, (f.arena.get? (.slot 2)).map (·.showsSubject))) =
      some ([.slot 1], [.slot 0, .slot 3, .slot 2], some false) := by
    rw [← hm, ← hsent]
    cbv
  obtain ⟨hok, hall⟩ := run_preorder {} m sent
  obtain ⟨b, hb⟩ := hok fun hown => by
    rw [← hsent] at hown
    cases hown
  obtain ⟨f, trees, blocks, hf, htrees, horder, _, _, hrows⟩ := hall b hb [true]
  rw [hb] at hvalue
  simp only [Except.toOption, Option.map_some, hf, Option.some.injEq, Prod.mk.injEq] at hvalue
  obtain ⟨hroots, hvalue, hshows⟩ := hvalue
  obtain ⟨rows, hlines, hcontainers, hshown⟩ := hrows 0 50 7
  have hpreorder := (htrees trees).2 rfl
  rw [hroots] at hpreorder
  obtain ⟨tree, _, htree, hrest, rfl⟩ := List.forall₂_cons_left_iff.1 hpreorder
  cases hrest
  rw [List.flatten_cons, List.flatten_nil, List.append_nil] at horder
  rw [hvalue] at hcontainers
  have hlast : Index.slot 2 ∈ rows.map (·.container) := by simp [hcontainers]
  obtain ⟨row, hrow, hcontainer⟩ := List.mem_map.1 hlast
  refine ⟨b, f, tree, rows, hb, hf, htree, horder, hlines, hcontainers, row, hrow, hcontainer, ?_⟩
  obtain ⟨c, hc, _, _, hsubject⟩ := hshown row hrow
  rw [hcontainer] at hc
  have hhidden : c.showsSubject = false := by simpa [hc] using hshows
  rw [hsubject, hhidden]
  rfl

/-- The rows of a plain listing, where it is known what the build has given. -/
theorem messageLines_of_run {o : BuildOptions} {m : Mailbox} {sent : SentFolder} {f : Forest}
    {is : List Index} (hf : (run o m sent).toOption.map (·.forest) = some f)
    (htrees : f.trees.flatten = is) (hsent : sent ≠ .own) (style : ListingStyle)
    (hsort : style.sort = none) (hsub : style.subsort = none) (hterm : style.filter = .empty) :
    ∃ b, run o m sent = .ok b ∧
      b.forest.messageLines style = .ok (is.filterMap (f.messageLine? style)) := by
  obtain ⟨b, r, s, hb, hmade⟩ := run_eq_ok o m sent hsent
  obtain ⟨rows, hrows, heq⟩ := hmade.forest_sound.messageLines_plain hsort hsub hterm
  rw [hb] at hf
  have hforest : b.forest = f := Option.some.inj hf
  refine ⟨b, hb, ?_⟩
  rw [hrows, heq, hforest, htrees]

/-- What is built from one envelope that has a subject and nothing else. -/
def alone (subject : Text) : Forest :=
  { arena := { containers := #[{ message := some (.slot 0) }] }
    envelopes := #[{ subject, thread := some (.slot 0) }]
    roots := [.slot 0]
    order := [.slot 0] }

theorem exists_row_alone (subject : Text) (width : Rat) :
    ∃ b row, run {} (.ofEnvelopes [{ subject }]) .absent = .ok b ∧
      b.forest.messageLines { now := 0, subjectWidth := width } = .ok [row] ∧
      row.subject = Subject.cut subject width := by
  have hf : (run {} (.ofEnvelopes [{ subject }]) .absent).toOption.map (·.forest) =
      some (alone subject) := by
    cbv
  have htrees : (alone subject).trees.flatten = [.slot 0] := by
    cbv
  obtain ⟨row, hrow, hshown⟩ : ∃ row,
      (alone subject).messageLine? { now := 0, subjectWidth := width } (.slot 0) = some row ∧
        row.subject = Subject.cut subject width := ⟨_, rfl, rfl⟩
  obtain ⟨b, hb, hrows⟩ :=
    messageLines_of_run hf htrees (by simp) { now := 0, subjectWidth := width } rfl rfl rfl
  rw [List.filterMap_cons, hrow] at hrows
  exact ⟨b, row, hb, hrows, hshown⟩

end MailThread.Build
