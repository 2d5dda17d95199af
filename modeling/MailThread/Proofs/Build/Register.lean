import MailThread.Proofs.Assembly.Register
import MailThread.Proofs.Build.Rows
import MailThread.Proofs.Build.Sent
import Mathlib

namespace MailThread

open Assembly Arena

/-- The forest accounts for the entries of a mailbox. -/
structure Forest.AccountsFor (f : Forest) (m : Mailbox) : Prop where
  envelopes : f.envelopes = m.envelopes
  /-- Only a repetition has no container; a copy always has one. -/
  unbound : ∀ (k : Nat) (e : Entry), m.entries[k]? = some e →
    (e.envelope.thread = none ↔ m.Repeats k e)
  bound : ∀ e ∈ m.entries, ∀ i, e.envelope.thread = some i → e.envelope.messageId ≠ .empty →
    f.arena.find? e.envelope.messageId = some i
  /-- The ids that name a container are those of messages and of the parents of those received. -/
  known : ∀ x, (f.arena.find? x).isSome ↔ x ≠ .empty ∧
    ((∃ e ∈ m.entries, e.envelope.messageId = x) ∨
      ∃ e ∈ m.entries, e.isCopy = false ∧ e.envelope.thread ≠ none ∧
        e.envelope.parentId? = some x)
  waiting : ∀ x i, f.arena.find? x = some i →
    (f.arena.message? i = none ↔ ∀ e ∈ m.entries, e.envelope.messageId ≠ x)
  /-- The container of an id holds the first message with it. -/
  first : ∀ (k : Nat) (e : Entry), m.entries[k]? = some e → e.envelope.messageId ≠ .empty →
    (∀ (l : Nat) (e' : Entry), m.entries[l]? = some e' →
      e'.envelope.messageId = e.envelope.messageId → k ≤ l) →
    ∃ i, f.arena.find? e.envelope.messageId = some i ∧ f.arena.message? i = some (.slot k)
  keys : (f.arena.ids.map Prod.fst).Nodup
  size : f.size = f.arena.ids.length + f.envelopes.toList.countP (·.messageId = .empty)
  rows : f.order.Nodup ∧ ∀ i, i ∈ f.order ↔ ∃ m, f.arena.message? i = some m

namespace Build

variable {o : BuildOptions} {m : Mailbox} {sent : SentFolder} {b : Build} {r s : Assembly}

theorem Made.registered (h : Made o m sent b r s) : b.forest.arena.Registered b.mailbox := by
  have hreceived : r.Registered :=
    h.passes.received.registered Received.sound Received.registered sound_start registered_start
  have hmerged : s.Registered :=
    h.passes.merged.registered Merged.sound Merged.registered h.passes.received_sound hreceived
  rw [h.mailbox]
  exact h.arena.registered hmerged

theorem Made.envelopes_eq_mailbox (h : Made o m sent b r s) :
    b.forest.envelopes = b.mailbox.envelopes := by
  rw [h.envelopes, h.mailbox]
  rfl

theorem Made.sound_mailbox (h : Made o m sent b r s) :
    b.forest.arena.Sound b.mailbox.envelopes :=
  h.envelopes_eq_mailbox ▸ h.forest_sound.arena

theorem Made.accountsFor (h : Made o m sent b r s) : b.forest.AccountsFor b.mailbox := by
  have hs := h.sound_mailbox
  have hr := h.registered
  refine
    { envelopes := h.envelopes_eq_mailbox
      unbound := fun k e he => hr.thread_eq_none_iff hs he
      bound := fun e he i hi hne => ?_
      known := fun x => ?_
      waiting := fun x i hx => hr.message?_eq_none_iff hs hx
      first := fun k e he hne hfirst => hr.holds_first hs he hne hfirst
      keys := hs.ready.named.keys
      size := h.envelopes_eq_mailbox ▸ hr.size_eq hs
      rows := ⟨h.forest_sound.nodup_order h.harvested h.laid, fun i =>
        h.forest_sound.mem_order h.harvested h.laid⟩ }
  · obtain ⟨k, hk⟩ := Array.mem_iff_getElem?.1 he
    exact hs.find?_of_thread hk hi hne
  · rw [hr.isSome_find?_iff hs, ← exists_or]
    simp only [Entry.Mentions, Entry.Filed, and_assoc, and_or_left]

/-- No message is lost or duplicated by a build: the mailbox keeps its envelopes, the copies that are
taken over come behind them, and the forest accounts for all of them. -/
theorem run_accounts (o : BuildOptions) (m : Mailbox) (sent : SentFolder) :
    (sent ≠ .own → ∃ b, run o m sent = .ok b) ∧
      ∀ b, run o m sent = .ok b →
        b.forest.AccountsFor b.mailbox ∧
        ∃ copies : List Envelope, copies.Sublist (offered o.mergeSent sent (received m)) ∧
          b.mailbox.contents = (m.withoutCopies.envelopes.toList.map fun e => (e.untied, false)) ++
            copies.map fun e => (e.untied, true) := by
  refine ⟨exists_run o m sent, fun b hb => ?_⟩
  obtain ⟨r, s, hmade⟩ := made_of_run hb
  refine ⟨hmade.accountsFor, (joined o m sent).map Prod.snd, takenOver_sublist _ _, ?_⟩
  rw [hmade.contents, List.map_map]
  rfl

/-- A second envelope of one id, an envelope without an id and a sent message that fills a placeholder:
of the three ids the one that is only referred to has a placeholder. -/
theorem run_accounts_repeated :
    ∃ b i, run {} (.ofEnvelopes [{ messageId := "a", inReplyTo := "x" },
        { messageId := "a", inReplyTo := "z" }, { references := ["y"] }])
        (.folder [{ messageId := "x", inReplyTo := "a" }, { messageId := "x" }]) = .ok b ∧
      b.forest.size = 3 + 1 ∧ b.forest.arena.find? "z" = none ∧
      b.forest.arena.find? "y" = some i ∧ b.forest.arena.message? i = none := by
  generalize hm : Mailbox.ofEnvelopes [{ messageId := "a", inReplyTo := "x" },
    { messageId := "a", inReplyTo := "z" }, { references := ["y"] }] = m
  generalize hsent : SentFolder.folder [{ messageId := "x", inReplyTo := "a" },
    { messageId := "x" }] = sent
  have hvalue : (run {} m sent).toOption.map (fun b =>
      (b.mailbox.entries, b.forest.arena.ids.length)) =
      some (#[{ envelope := { messageId := "a", inReplyTo := "x", thread := some (.slot 0) } },
        { envelope := { messageId := "a", inReplyTo := "z" } },
        { envelope := { references := ["y"], thread := some (.slot 2) } },
        { envelope := { messageId := "x", inReplyTo := "a", thread := some (.slot 1) },
          isCopy := true }], 3) := by
    rw [← hm, ← hsent]
    cbv
  obtain ⟨hok, haccounts⟩ := run_accounts {} m sent
  obtain ⟨b, hb⟩ := hok fun hown => by
    rw [← hsent] at hown
    cases hown
  rw [hb] at hvalue
  simp only [Except.toOption, Option.map_some, Option.some.injEq, Prod.mk.injEq] at hvalue
  obtain ⟨hentries, hids⟩ := hvalue
  obtain ⟨h, _⟩ := haccounts b hb
  have hy : (b.forest.arena.find? "y").isSome := by
    rw [h.known, hentries]
    decide
  obtain ⟨i, hi⟩ := Option.isSome_iff_exists.1 hy
  refine ⟨b, i, hb, ?_, ?_, hi, (h.waiting "y" i hi).2 ?_⟩
  · rw [h.size, hids, h.envelopes, Mailbox.envelopes, hentries]
    cbv
  · rw [← Option.not_isSome_iff_eq_none, h.known, hentries]
    decide
  · rw [hentries]
    decide

end Build

end MailThread
