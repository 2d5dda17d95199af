import MailThread.Proofs.Assembly.Inbox

namespace MailThread

theorem Envelope.inReplyTo_of_parentless {e : Envelope} (h : e.parentId? = none) :
    e.inReplyTo = .empty ∨ e.inReplyTo = e.messageId := by
  have hnil : e.followed = [] := List.getLast?_eq_none_iff.1 h
  unfold followed at hnil
  simp only at hnil
  split at hnil
  next => simp at hnil
  next hr =>
    rw [hnil] at hr
    by_contra hne
    rw [not_or] at hne
    exact hr ⟨hne.1, hne.2, List.not_mem_nil⟩

namespace Assembly

open Assembling

variable {s s' t t' : Assembly} {e : Envelope} {es : List Envelope} {i : Index} {isCopy : Bool}
  {parentId : Option Text} {above : Option Index}

def after (s : Assembly) (x : Assembling Unit) : Assembly :=
  match x.run s with
  | .ok _ t => t
  | .error _ t => t

theorem after_of_run {x : Assembling Unit} (h : x.run s = .ok () t) : s.after x = t := by
  rw [after, h]

/-- Whether merging `e` adds a copy of it to the mailbox. -/
def takesOver (s : Assembly) (e : Envelope) : Bool :=
  s.mailbox.size < (s.after (mergeSent e)).mailbox.size

/-- The messages of a sent folder of which merging adds a copy, each with the assembly that it
meets. -/
def takenOver (s : Assembly) : List Envelope → List (Assembly × Envelope)
  | [] => []
  | e :: es =>
    let rest := (s.after (mergeSent e)).takenOver es
    if s.takesOver e then (s, e) :: rest else rest

/-- Whether `e` replies to a message that is known. -/
def answersKnown (s : Assembly) (e : Envelope) : Bool :=
  e.inReplyTo ≠ .empty && (s.arena.find? e.inReplyTo).isSome

/-- The parent reference of `e`, if it has one, is the message that it replies to, and that is
known. -/
def Answers (s : Assembly) (e : Envelope) : Prop :=
  e.parentId? = none ∨
    ((s.arena.find? e.inReplyTo).isSome ∧ e.parentId? = some e.inReplyTo)

instance : Decidable (s.Answers e) :=
  inferInstanceAs (Decidable (_ ∨ _))

/-- The two assemblies have the same arena and the same envelopes. -/
structure Alike (s t : Assembly) : Prop where
  arena : t.arena = s.arena
  envelopes : t.envelopes = s.envelopes

theorem Sound.answersKnown_eq (h : s.Sound) (e : Envelope) :
    s.answersKnown e = (s.replyTarget e).isSome := by
  unfold answersKnown replyTarget
  cases hf : s.arena.find? e.inReplyTo with
  | none => simp
  | some i => simp [h.ready.named.ne_empty hf]

theorem Alike.size (h : s.Alike t) : t.mailbox.size = s.mailbox.size := by
  rw [← Mailbox.size_envelopes, ← Mailbox.size_envelopes]
  exact congrArg Array.size h.envelopes

theorem Takes.grows (h : s.Takes t e isCopy parentId i above) :
    s.mailbox.size < t.mailbox.size := by
  simp [h.mailbox, Mailbox.size, Mailbox.push]

theorem Merged.takes (h : s.Merged e t) :
    (t.arena = s.arena ∧ t.mailbox = s.mailbox) ∨
      ∃ i above, s.Takes t e true (s.replyTarget e) i above := by
  cases h with
  | ignored _ harena hmailbox => exact .inl ⟨harena, hmailbox⟩
  | duplicate _ _ harena hmailbox => exact .inl ⟨harena, hmailbox⟩
  | taken ht => exact .inr ⟨_, _, ht⟩

theorem Merged.takes_of_grows (h : s.Merged e t) (hgrows : s.mailbox.size < t.mailbox.size) :
    ∃ i above, s.Takes t e true (s.replyTarget e) i above ∧
      (s.arena.find? e.messageId ≠ none ∨ s.arena.find? e.inReplyTo ≠ none) := by
  cases h with
  | ignored _ _ hmailbox => exact absurd hgrows (hmailbox ▸ Nat.lt_irrefl _)
  | duplicate _ _ _ hmailbox => exact absurd hgrows (hmailbox ▸ Nat.lt_irrefl _)
  | taken ht htouched => exact ⟨_, _, ht, htouched⟩

/-- A waiting message comes in alike, whether it is placed under the message that it replies to or
under its parent reference. -/
theorem Answers.entered_eq (ha : s.Answers e) (h : s.arena.Ready)
    (hw : ∀ j, s.arena.find? e.messageId = some j → s.arena.message? j = none) (m : Index) :
    s.arena.entered e.messageId m e.date (s.replyTarget e) =
      s.arena.entered e.messageId m e.date e.parentId? := by
  unfold replyTarget
  rcases ha with hnone | ⟨hknown, hsome⟩
  · rw [hnone]
    split
    next hknown =>
      obtain ⟨i, hi⟩ := Option.isSome_iff_exists.1 hknown
      -- a known message that is no parent reference is the message itself
      have hself : e.inReplyTo = e.messageId :=
        (Envelope.inReplyTo_of_parentless hnone).resolve_left (h.named.ne_empty hi)
      rw [hself] at hi ⊢
      exact h.entered_self hi (hw i hi)
    next => rfl
  · rw [if_pos hknown, hsome]

theorem Takes.alike (hm : s.Takes s' e true (s.replyTarget e) i above) (hr : t.Received e t')
    (h : s.arena.Ready) (ha : s.Answers e) (hst : s.Alike t) : s'.Alike t' := by
  cases hr with
  | duplicate hnamed hheld =>
    rw [hst.arena] at hnamed hheld
    exact absurd (hm.waiting _ hnamed.2) hheld
  | taken hr =>
    refine ⟨?_, ?_⟩
    · rw [hr.arena, hm.arena, hst.arena, hst.size]
      exact (ha.entered_eq h hm.waiting _).symm
    · rw [hr.envelopes, hm.envelopes, hst.envelopes, hr.seat, hm.seat, hst.arena]

theorem takenOver_cons (hrun : (mergeSent e).run s = .ok () t) :
    s.takenOver (e :: es) =
      if s.mailbox.size < t.mailbox.size then (s, e) :: t.takenOver es else t.takenOver es := by
  simp only [takenOver, takesOver, after_of_run hrun, decide_eq_true_eq]

/-- A message that is taken over touches the assembly that it meets, and those behind it come after
it. -/
theorem exists_takes_of_mem (h : s.Sound) (hrun : (mergeFolder es).run s = .ok () t)
    {q : Assembly × Envelope} (hq : q ∈ s.takenOver es) :
    ∃ u es' i above, q.1.Takes u q.2 true (q.1.replyTarget q.2) i above ∧
      (q.1.arena.find? q.2.messageId ≠ none ∨ q.1.arena.find? q.2.inReplyTo ≠ none) ∧
      Run Merged u es' t := by
  induction es generalizing s with
  | nil => exact absurd hq List.not_mem_nil
  | cons e es ih =>
    obtain ⟨u, hu, hmerged⟩ := run_mergeSent h.ready e
    have hsound := hmerged.sound h
    have hrest := (run_forM_cons es hu).symm.trans hrun
    rw [takenOver_cons hu] at hq
    split at hq
    next hgrows =>
      rcases List.mem_cons.1 hq with rfl | hq
      · obtain ⟨i, above, htakes, htouched⟩ := hmerged.takes_of_grows hgrows
        obtain ⟨t', ht', hafter⟩ := run_mergeFolder es hsound
        cases ht'.symm.trans hrest
        exact ⟨u, es, i, above, htakes, htouched, hafter⟩
      · exact ih hsound hrest hq
    next => exact ih hsound hrest hq

theorem takenOver_sublist (s : Assembly) (es : List Envelope) :
    ((s.takenOver es).map Prod.snd).Sublist es := by
  induction es generalizing s with
  | nil => exact .slnil
  | cons e es ih =>
    simp only [takenOver]
    split
    · exact (ih _).cons_cons e
    · exact (ih _).cons e

/-- Merging adds the copies of the messages that it takes over, in their order. -/
theorem run_mergeFolder_contents (h : s.Sound) (es : List Envelope) :
    ∃ t, (mergeFolder es).run s = .ok () t ∧
      t.mailbox.contents = s.mailbox.contents ++
        (s.takenOver es).map fun q => (q.2.untied, true) := by
  induction es generalizing s with
  | nil => exact ⟨s, rfl, by simp [takenOver]⟩
  | cons e es ih =>
    obtain ⟨s', hrun, hmerged⟩ := run_mergeSent h.ready e
    obtain ⟨t, hrest, hcontents⟩ := ih (hmerged.sound h)
    refine ⟨t, (run_forM_cons es hrun).trans hrest, ?_⟩
    rw [hcontents, takenOver_cons hrun]
    rcases hmerged.takes with ⟨_, hmailbox⟩ | ⟨i, above, htakes⟩
    · rw [hmailbox, if_neg (Nat.lt_irrefl _)]
    · rw [htakes.contents, if_pos htakes.grows, List.map_cons, List.append_assoc,
        List.singleton_append]

/-- Merging a sent folder leads to the arena that receiving the messages leads to which are taken
over, provided that each of them answers its parent. -/
theorem run_mergeFolder_alike (h : s.Sound) (es : List Envelope)
    (ha : ∀ q ∈ s.takenOver es, q.1.Answers q.2) (hst : s.Alike t) :
    ∃ s' t', (mergeFolder es).run s = .ok () s' ∧
      (((s.takenOver es).map Prod.snd).forM receive).run t = .ok () t' ∧ s'.Alike t' := by
  induction es generalizing s t with
  | nil => exact ⟨s, t, rfl, rfl, hst⟩
  | cons e es ih =>
    obtain ⟨u, hrun, hmerged⟩ := run_mergeSent h.ready e
    have hsound := hmerged.sound h
    rw [takenOver_cons hrun] at ha ⊢
    rcases hmerged.takes with ⟨harena, hmailbox⟩ | ⟨i, above, htakes⟩
    · -- a message that is left out has no counterpart among those received
      rw [hmailbox, if_neg (Nat.lt_irrefl _)] at ha ⊢
      obtain ⟨s', t', hs', ht', halike⟩ := ih hsound ha ⟨hst.arena.trans harena.symm, by
        rw [hst.envelopes, envelopes, envelopes, hmailbox]⟩
      exact ⟨s', t', (run_forM_cons es hrun).trans hs', ht', halike⟩
    · rw [if_pos htakes.grows] at ha ⊢
      obtain ⟨v, hreceive, hreceived⟩ := run_receive (s := t) (hst.arena ▸ h.ready) e
      obtain ⟨s', t', hs', ht', halike⟩ := ih hsound (fun q hq => ha q (List.mem_cons_of_mem _ hq))
        (htakes.alike hreceived h.ready (ha (s, e) List.mem_cons_self) hst)
      exact ⟨s', t', (run_forM_cons es hrun).trans hs', (run_forM_cons _ hreceive).trans ht',
        halike⟩

end Assembly

end MailThread
