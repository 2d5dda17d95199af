import MailThread.Proofs.Assembly.Balance
import MailThread.Proofs.Build.Rows
import MailThread.Proofs.Build.Sent
import Mathlib

namespace MailThread.Build

open Assembly Assembling

variable {o : BuildOptions} {m : Mailbox} {sent : SentFolder} {b : Build} {r s : Assembly}

/-- What a build counted on its way agrees with what it leaves, where `received` envelopes are those of
the mailbox and `copies` the sent messages that were taken over. -/
structure Balances (b : Build) (received : Nat) (copies : List (Assembly × Envelope)) : Prop where
  envelopes : b.counts.envelopes = received + b.counts.sentMerged
  merged : b.counts.sentMerged = copies.length
  mailbox : b.counts.envelopes = b.mailbox.size
  containers : b.counts.containers = b.forest.size
  rows : b.counts.containers = b.counts.placeholders + b.forest.order.length
  bound : b.counts.envelopes = b.counts.duplicates + b.forest.order.length
  roots : b.counts.roots = b.forest.arena.indices.countP fun i => (b.forest.arena.parent? i).isNone
  /-- A container has a parent because its message names one, and the link was not refused. -/
  links : b.counts.containers + b.counts.refused =
    b.counts.roots + (b.mailbox.references + copies.countP fun q => q.1.answersKnown q.2)

namespace Made

variable (h : Made o m sent b r s)
include h

theorem size_received : r.mailbox.size = m.withoutCopies.size := by
  rw [← Mailbox.length_contents, h.passes.received.contents]
  simp [Mailbox.contents, Mailbox.envelopes, Mailbox.size]

theorem sent_received : r.sent = {} := h.passes.received.sent_eq

theorem size_mailbox : s.mailbox.size = m.withoutCopies.size + s.sent.merged := by
  have hunmerged : s.unmerged = r.unmerged + 0 :=
    (adds_mergeFolder _ _ _ _ h.passes.joins).2.1
  simp only [Assembly.unmerged, h.size_received, h.sent_received] at hunmerged
  omega

theorem sentMerged_eq : b.counts.sentMerged = (joined o m sent).length := by
  have hlength : b.mailbox.size = m.withoutCopies.size + (joined o m sent).length := by
    rw [← Mailbox.length_contents, h.contents, List.length_append, List.length_map, List.length_map,
      Array.length_toList, Mailbox.size_envelopes]
  have hmerged : b.counts.sentMerged = s.sent.merged := by rw [h.counts, countsOf]
  rw [h.mailbox, h.size_mailbox] at hlength
  omega

theorem balanced : s.Balanced ((joined o m sent).countP fun q => q.1.answersKnown q.2) := by
  obtain ⟨t, ht, hbalanced⟩ := run_mergeFolder_balanced h.passes.received_sound
    (h.passes.received.balanced sound_start balanced_start) (offered o.mergeSent sent r)
  cases ht.symm.trans h.passes.joins
  rwa [zero_add, ← h.received_eq] at hbalanced

theorem length_order : b.forest.order.length = s.arena.held.ncard := by
  have hheld : s.arena.held = (b.forest.order.toFinset : Set Index) := by
    ext i
    rw [List.coe_toFinset, Set.mem_ofPred_eq, h.forest_sound.mem_order h.harvested h.laid,
      h.arena.message?_eq, ← Option.ne_none_iff_exists']
    rfl
  rw [hheld, Set.ncard_coe_finset,
    List.toFinset_card_of_nodup (h.forest_sound.nodup_order h.harvested h.laid)]

theorem length_roots : b.forest.roots.length = s.arena.tops.length := by
  rw [h.roots_eq, List.length_mergeSort, List.length_map]

theorem balances : b.Balances m.withoutCopies.size (joined o m sent) := by
  have hheld := h.balanced.held
  have hhung := h.balanced.hung
  have hplaceholders := s.arena.countP_isPlaceholder_add
  have htops := s.arena.length_tops_add
  refine ⟨?_, h.sentMerged_eq, ?_, ?_, ?_, ?_, ?_, ?_⟩
  · rw [h.counts]
    exact h.size_mailbox
  · rw [h.counts, h.mailbox]
    rfl
  · rw [h.counts]
    exact h.arena.sameLinks.size_eq.symm
  · rw [h.counts, h.length_order]
    exact hplaceholders.symm
  · rw [h.counts, h.length_order]
    exact hheld.trans (add_comm _ _)
  · rw [h.counts, ← Arena.length_tops, h.arena.tops_eq]
    exact h.length_roots
  · rw [h.counts, h.mailbox]
    simp only [countsOf, h.length_roots]
    omega

end Made

/-- A pass over a sent folder counts each message once, as merged, as a duplicate or as ignored, and
the mailbox grows by those merged. In every build the counts agree with the mailbox and the forest, and
the containers with a parent are those of the messages that name one, less the links refused. -/
theorem run_balance :
    (∀ a inbox es t, (mergeFolder es).run { arena := a, mailbox := inbox } = .ok () t →
      t.sent.merged + t.sent.duplicates + t.sent.ignored = es.length ∧
        t.mailbox.size = inbox.size + t.sent.merged) ∧
    (∀ a inbox t, mergeOwn.run { arena := a, mailbox := inbox } = .ok () t →
      t.sent.merged + t.sent.duplicates + t.sent.ignored = t.mailbox.size ∧
        t.mailbox.size = inbox.size + t.sent.merged) ∧
    (∀ s es, s.Sound → ∃ t, (mergeFolder es).run s = .ok () t) ∧
    ∀ o m sent, (sent ≠ .own → ∃ b, run o m sent = .ok b) ∧
      ∀ b, run o m sent = .ok b → b.Balances m.withoutCopies.size (joined o m sent) := by
  refine ⟨fun a inbox es t h => ?_, fun a inbox t h => ?_, fun s es h => ?_, fun o m sent => ?_⟩
  · obtain ⟨hread, hunmerged, _⟩ := adds_mergeFolder es _ _ _ h
    simp only [SentTally.read, Assembly.unmerged] at hread hunmerged
    omega
  · obtain ⟨hread, hunmerged⟩ := run_mergeOwn_counts h
    simp only [SentTally.read, Assembly.unmerged] at hread hunmerged
    omega
  · obtain ⟨t, ht, _⟩ := run_mergeFolder es h
    exact ⟨t, ht⟩
  · refine ⟨exists_run o m sent, fun b hb => ?_⟩
    obtain ⟨r, s, hmade⟩ := made_of_run hb
    exact hmade.balances

/-- A repeated id, a circle of two messages, a placeholder that stays and one that a sent message fills:
the sent message replies to the one below it, and of the six links two are refused. -/
theorem run_balance_circles :
    (∃ t, (mergeFolder [{ messageId := "x" }, { inReplyTo := "x" }]).run {} = .ok () t ∧
      t.sent.merged + t.sent.duplicates + t.sent.ignored = 2) ∧
    ∃ m sent b, m = .ofEnvelopes [{ messageId := "a", inReplyTo := "x" },
        { messageId := "a", inReplyTo := "z" }, { messageId := "b", inReplyTo := "c" },
        { messageId := "c", inReplyTo := "b" }, { references := ["y"] }] ∧
      sent = .folder [{ messageId := "x", inReplyTo := "a" }, { messageId := "k", inReplyTo := "b" },
        { messageId := "z" }, { messageId := "c", inReplyTo := "a" }] ∧
      run {} m sent = .ok b ∧ b.Balances 5 (joined {} m sent) ∧ b.counts.refused = 2 ∧
      b.counts.containers + 2 = b.counts.roots + (4 + 2) := by
  generalize hm : Mailbox.ofEnvelopes _ = m
  generalize hsent : SentFolder.folder _ = sent
  have hvalue : (run {} m sent).toOption.map (fun b =>
      (b.counts.refused, b.mailbox.references)) = some (2, 4) := by
    rw [← hm, ← hsent]
    cbv
  have hreceived : m.withoutCopies.size = 5 := by
    rw [← hm]
    cbv
  have hanswering : ((joined {} m sent).countP fun q => q.1.answersKnown q.2) = 2 := by
    rw [← hm, ← hsent]
    cbv
  obtain ⟨hpass, _, hmerges, hbuild⟩ := run_balance
  obtain ⟨t, ht⟩ := hmerges {} [{ messageId := "x" }, { inReplyTo := "x" }] sound_start
  obtain ⟨hok, hbalances⟩ := hbuild {} m sent
  obtain ⟨b, hb⟩ := hok fun hown => by
    rw [← hsent] at hown
    cases hown
  rw [hb] at hvalue
  obtain ⟨hrefused, hreferences⟩ := Prod.mk.inj (Option.some.inj hvalue)
  have hb' := hbalances b hb
  have hlinks := hb'.links
  rw [hrefused, hreferences, hanswering] at hlinks
  rw [hreceived] at hb'
  exact ⟨⟨t, ht, (hpass {} {} _ t ht).1⟩, m, sent, b, rfl, rfl, hb, hb', hrefused, hlinks⟩

end MailThread.Build
