import MailThread.Build
import MailThread.Proofs.Assembly.Merge
import MailThread.Proofs.Forest.Audit
import MailThread.Proofs.Forest.Conversation

namespace MailThread

open Assembly Assembling

/-- The sent messages that are read after the mailbox has given the assembly `r`. A mailbox that
serves as its own sent folder is read once more as far as it has grown. -/
def SentFolder.messages (r : Assembly) : SentFolder → List Envelope
  | absent => []
  | folder es => es
  | own => r.envelopes.toList ++
      (r.after (mergeFolder r.envelopes.toList)).envelopes.toList.drop r.envelopes.toList.length

namespace Build

variable {o : BuildOptions} {m inbox : Mailbox} {sent : SentFolder} {merges : Bool} {b : Build}
  {r s : Assembly} {events : List Event}

/-- The sent messages that a build reads. -/
def offered (merges : Bool) (sent : SentFolder) (r : Assembly) : List Envelope :=
  if merges then sent.messages r else []

/-- The assembly `r` comes out of the mailbox, and `s` out of the sent folder after it. -/
structure Passes (merges : Bool) (inbox : Mailbox) (sent : SentFolder) (r s : Assembly) : Prop where
  receives : (inbox.envelopes.toList.forM receive).run {} = .ok () r
  joins : (mergeFolder (offered merges sent r)).run r = .ok () s

/-- The build `b` shows the assembly `s`, which two passes gave. -/
structure Made (o : BuildOptions) (m : Mailbox) (sent : SentFolder) (b : Build) (r s : Assembly) :
    Prop where
  passes : Passes o.mergeSent m.withoutCopies sent r s
  laidOut : ({ arena := s.arena, envelopes := s.envelopes, roots := b.forest.roots } :
    Forest).layOut o.suppressRepeated = (b.forest, none)
  forest : Forest.Redrawn
    { arena := s.arena, envelopes := s.envelopes, roots := b.forest.roots } b.forest
  roots : s.arena.roots = .ok b.forest.roots
  mailbox : b.mailbox = s.mailbox
  counts : b.counts = countsOf s b.forest.roots

namespace Passes

variable (h : Passes merges inbox sent r s)
include h

theorem received : Run Received {} inbox.envelopes.toList r := by
  obtain ⟨t, ht, hrun⟩ := run_receiveAll inbox.envelopes.toList sound_start
  cases ht.symm.trans h.receives
  exact hrun

theorem received_sound : r.Sound := h.received.preserves Received.sound sound_start

theorem merged : Run Merged r (offered merges sent r) s := by
  obtain ⟨t, ht, hrun⟩ := run_mergeFolder (offered merges sent r) h.received_sound
  cases ht.symm.trans h.joins
  exact hrun

theorem sound : s.Sound := h.merged.preserves Merged.sound h.received_sound

end Passes

namespace Made

variable (h : Made o m sent b r s)
include h

theorem sound : s.Sound := h.passes.sound

theorem arena : s.arena.Redrawn b.forest.arena := h.forest.arena

theorem envelopes : b.forest.envelopes = s.envelopes := h.forest.envelopes

theorem roots_eq :
    b.forest.roots = (s.arena.tops.map s.arena.standIn).mergeSort
      fun i j => s.arena.dateOf j ≤ s.arena.dateOf i :=
  (Except.ok.inj (h.sound.linked.roots_eq.symm.trans h.roots)).symm

theorem mem_roots {i : Index} :
    i ∈ b.forest.roots ↔ ∃ t ∈ b.forest.arena.tops, b.forest.arena.standIn t = i := by
  rw [h.roots_eq, List.mem_mergeSort, List.mem_map]
  simp only [h.arena.mem_tops, h.arena.standIn_eq h.sound.linked]

theorem harvested : b.forest.Harvested where
  nodup := by
    rw [h.roots_eq, (List.mergeSort_perm _ _).nodup_iff]
    exact s.arena.nodup_tops.map_on fun _ ht _ ht' => h.sound.linked.standIn_injOn ht ht'
  mem := h.mem_roots

theorem forest_sound : b.forest.Sound := by
  refine h.forest.sound ⟨h.sound, fun i hi => ?_⟩
  obtain ⟨t, ht, rfl⟩ := h.mem_roots.1 hi
  rw [h.arena.standIn_eq h.sound.linked]
  exact h.sound.linked.standIn_mem (Arena.mem_tops.1 (h.arena.mem_tops.1 ht)).1

theorem eq_of_absent (hsent : sent = .absent) : s = r := by
  have hjoins := h.passes.joins
  rw [hsent, show offered o.mergeSent .absent r = [] from ite_self []] at hjoins
  cases hjoins
  rfl

theorem filed (hsent : sent = .absent) : b.forest.arena.Filed b.forest.envelopes := by
  have hf : s.arena.Filed s.envelopes :=
    h.eq_of_absent hsent ▸ (h.passes.received.filed sound_start filed_start).2
  rw [h.envelopes]
  exact
    { free := fun hj hp => by
        rw [h.arena.sameLinks.parent?_eq]
        exact hf.free (h.arena.holds.1 hj) hp
      under := fun {i k e x} hj hp => by
        rw [h.arena.sameLinks.parent?_eq]
        simp only [h.arena.find?_eq, h.arena.below]
        exact hf.under (h.arena.holds.1 hj) hp
      unbound := hf.unbound }

theorem map_untied (hsent : sent = .absent) :
    b.forest.envelopes.toList.map Envelope.untied =
      m.withoutCopies.envelopes.toList.map Envelope.untied := by
  rw [h.envelopes, h.eq_of_absent hsent, h.passes.received.map_untied]
  simp [Assembly.envelopes, Mailbox.envelopes]

end Made

theorem run_arrivedSince (n : Nat) (s : Assembly) :
    (arrivedSince n).run s = .ok (s.envelopes.toList.drop n) s := rfl

/-- A mailbox that is merged into itself is read twice, and a third time only for a fault. -/
theorem run_mergeOwn (h : r.Sound) :
    ∃ s, (mergeFolder (SentFolder.own.messages r)).run r = .ok () s ∧
      (mergeOwn.run r = .ok () s ∨ ∃ fault, mergeOwn.run r = .error fault s) := by
  obtain ⟨t, ht, hfirst⟩ := run_mergeFolder r.envelopes.toList h
  obtain ⟨s, hs, _⟩ := run_mergeFolder (t.envelopes.toList.drop r.envelopes.toList.length)
    (hfirst.preserves Merged.sound h)
  refine ⟨s, ?_, ?_⟩
  · rw [SentFolder.messages, after_of_run ht]
    exact (run_forM_append _ ht).trans hs
  · unfold mergeOwn
    rw [run_bind_ok (run_arrivedSince 0 r), List.drop_zero, run_bind_ok ht,
      run_bind_ok (run_arrivedSince _ t), run_bind_ok hs, run_bind_ok (run_arrivedSince _ s)]
    split
    · exact .inl rfl
    · exact .inr ⟨.endless, rfl⟩

/-- Both passes come to their end, or a mailbox is merged into itself and has none. -/
theorem run_assemble (merges : Bool) (inbox : Mailbox) (sent : SentFolder) :
    (∃ r s events, Passes merges inbox sent r s ∧
      (assemble merges inbox sent).run {} = .ok () { s with events }) ∨
    (sent = .own ∧ ∃ fault t, (assemble merges inbox sent).run {} = .error fault t) := by
  obtain ⟨r, hr, hreceived⟩ := run_receiveAll inbox.envelopes.toList sound_start
  have hsound := hreceived.preserves Received.sound sound_start
  unfold assemble
  rw [run_bind_ok hr]
  by_cases hm : (merges && !sent.isAbsent) = true
  · rw [if_pos hm]
    obtain ⟨rfl, habsent⟩ := Bool.and_eq_true_iff.1 hm
    cases sent with
    | absent => cases habsent
    | folder es =>
      obtain ⟨s, hs, _⟩ := run_mergeFolder es hsound
      refine .inl ⟨r, s, s.events ++ [.sentMerged s.sent], ⟨hr, hs⟩, ?_⟩
      change (mergeFolder es >>= _).run r = _
      rw [run_bind_ok hs]
      rfl
    | own =>
      obtain ⟨s, hs, hown | ⟨fault, hown⟩⟩ := run_mergeOwn hsound
      · refine .inl ⟨r, s, s.events ++ [.sentMerged s.sent], ⟨hr, hs⟩, ?_⟩
        change (mergeOwn >>= _).run r = _
        rw [run_bind_ok hown]
        rfl
      · refine .inr ⟨rfl, fault, s, ?_⟩
        change (mergeOwn >>= _).run r = _
        simp only [EStateM.run_bind, hown]
  · rw [if_neg hm]
    have hnone : offered merges sent r = [] := by
      cases merges with
      | false => rfl
      | true => cases sent with
        | absent => rfl
        | folder es => exact absurd rfl hm
        | own => exact absurd rfl hm
    exact .inl ⟨r, r, r.events, ⟨hr, by rw [hnone]; rfl⟩, rfl⟩

/-- When both passes came to their end, the build succeeds. -/
theorem run_of_assemble (hp : Passes o.mergeSent m.withoutCopies sent r s)
    (ht : (assemble o.mergeSent m.withoutCopies sent).run {} = .ok () { s with events }) :
    ∃ b, run o m sent = .ok b ∧ Made o m sent b r s := by
  have hs := hp.sound
  have hroots := hs.linked.roots_eq
  generalize hrs : (s.arena.tops.map s.arena.standIn).mergeSort
    (fun i j => s.arena.dateOf j ≤ s.arena.dateOf i) = rs at hroots
  have hbare : Forest.Sound { arena := s.arena, envelopes := s.envelopes, roots := rs } := by
    refine ⟨hs, fun i hi => ?_⟩
    rw [← hrs, List.mem_mergeSort, List.mem_map] at hi
    obtain ⟨j, hj, rfl⟩ := hi
    exact hs.linked.standIn_mem (Arena.mem_tops.1 hj).1
  obtain ⟨f, hf, hredrawn⟩ := hbare.layOut_spec o.suppressRepeated
  have haudit : auditEvents f = .ok [] := by
    rw [auditEvents, (hredrawn.sound hbare).audit_eq_nil]
    rfl
  have hrun : run o m sent = .ok
      { forest := f
        mailbox := s.mailbox
        counts := countsOf s rs
        events := (if 0 < m.copyCount then [.copiesRemoved m.copyCount] else []) ++
          [.building m.withoutCopies.size (sent.count m.withoutCopies.size)] ++ events ++ [] ++
          [.built (countsOf s rs)] } := by
    unfold run
    simp only [ht, finish, ok_bind, hroots]
    rw [show s.mailbox.envelopes = s.envelopes from rfl, hf]
    simp only [pure_bind, haudit, ok_bind, ite_self]
    rfl
  have hrootsF : f.roots = rs := hredrawn.roots
  refine ⟨_, hrun, hp, ?_, ?_, ?_, rfl, ?_⟩
  · simpa only [hrootsF] using hf
  · simpa only [hrootsF] using hredrawn
  · rw [hroots, hrootsF]
  · rw [hrootsF]

theorem run_eq_ok (o : BuildOptions) (m : Mailbox) (sent : SentFolder) (hsent : sent ≠ .own) :
    ∃ b r s, run o m sent = .ok b ∧ Made o m sent b r s := by
  rcases run_assemble o.mergeSent m.withoutCopies sent with ⟨r, s, events, hp, ht⟩ | ⟨hown, _⟩
  · obtain ⟨b, hb, hmade⟩ := run_of_assemble hp ht
    exact ⟨b, r, s, hb, hmade⟩
  · exact absurd hown hsent

theorem exists_run (o : BuildOptions) (m : Mailbox) (sent : SentFolder) (hsent : sent ≠ .own) :
    ∃ b, run o m sent = .ok b := by
  obtain ⟨b, _, _, hb, _⟩ := run_eq_ok o m sent hsent
  exact ⟨b, hb⟩

theorem made_of_run (hb : run o m sent = .ok b) : ∃ r s, Made o m sent b r s := by
  rcases run_assemble o.mergeSent m.withoutCopies sent with
    ⟨r, s, events, hp, ht⟩ | ⟨_, fault, t, ht⟩
  · obtain ⟨b', hb', hmade⟩ := run_of_assemble hp ht
    cases hb.symm.trans hb'
    exact ⟨r, s, hmade⟩
  · unfold run at hb
    simp only [ht, finish] at hb
    cases hb

end Build

end MailThread
