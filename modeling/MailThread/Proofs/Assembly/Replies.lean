import MailThread.Proofs.Assembly.Refusal

namespace MailThread

/-- The entry at position `k` of the mailbox has a container without a parent. -/
def Arena.freeAt (a : Arena) (m : Mailbox) (k : Nat) : Bool :=
  (m.entries[k]?.bind (·.envelope.thread)).any fun i => (a.parent? i).isNone

theorem Arena.Redrawn.freeAt_eq {a b : Arena} (h : a.Redrawn b) (m : Mailbox) (k : Nat) :
    b.freeAt m k = a.freeAt m k := by
  unfold Arena.freeAt
  simp only [h.sameLinks.parent?_eq]

namespace Assembly

open Assembling

variable {s t u : Assembly} {e : Envelope} {es : List Envelope} {i : Index} {isCopy : Bool}
  {parentId : Option Text} {above : Option Index} {q : Assembly × Envelope}

/-- Containers that hold a message keep it and stay where they are, and so do the entries. -/
structure Keeps (s t : Assembly) : Prop where
  message? : ∀ {i}, s.arena.message? i ≠ none → t.arena.message? i = s.arena.message? i
  parent? : ∀ {i}, s.arena.message? i ≠ none → t.arena.parent? i = s.arena.parent? i
  entries : ∀ {k : Nat} {d : Entry}, s.mailbox.entries[k]? = some d → t.mailbox.entries[k]? = some d

namespace Keeps

theorem refl (s : Assembly) : s.Keeps s := ⟨fun _ => rfl, fun _ => rfl, id⟩

theorem trans (h : s.Keeps t) (h' : t.Keeps u) : s.Keeps u where
  message? := fun hi => (h'.message? (h.message? hi ▸ hi)).trans (h.message? hi)
  parent? := fun hi => (h'.parent? (h.message? hi ▸ hi)).trans (h.parent? hi)
  entries := fun hk => h'.entries (h.entries hk)

end Keeps

theorem Takes.keeps (ht : s.Takes t e isCopy parentId i above) : s.Keeps t := by
  have hi := ht.admits_envelopes.unheld ht.waiting
  have hne : ∀ {j}, s.arena.message? j ≠ none → j ≠ i := by
    rintro j hj rfl
    exact hj hi
  exact
    { message? := fun hj => by rw [ht.admits.message?, if_neg (hne hj)]
      parent? := fun hj => by rw [ht.admits.parent?, if_neg (hne hj)]
      entries := fun hk => by
        rw [ht.mailbox]
        exact Mailbox.getElem?_push_of_some hk }

theorem Merged.keeps (hm : s.Merged e t) : s.Keeps t := by
  rcases hm.takes with ⟨harena, hmailbox⟩ | ⟨_, _, ht⟩
  · exact ⟨fun _ => by rw [harena], fun _ => by rw [harena], fun hk => by rwa [hmailbox]⟩
  · exact ht.keeps

theorem Run.keeps (hr : Run Merged s es t) : s.Keeps t :=
  hr.preserves (P := s.Keeps) (fun h hm => h.trans hm.keeps) (.refl s)

theorem Takes.entry (ht : s.Takes t e isCopy parentId i above) :
    t.mailbox.entries[s.mailbox.size]? = some (entryOf e (some i) isCopy) := by
  simp [ht.mailbox, Mailbox.push, Mailbox.size]

theorem Takes.freeAt (ht : s.Takes t e isCopy parentId i above) (hk : t.Keeps u) :
    u.arena.freeAt u.mailbox s.mailbox.size = above.isNone := by
  have hheld : t.arena.message? i ≠ none := by simp [ht.admits.message?]
  have hparent : u.arena.parent? i = above := by
    rw [hk.parent? hheld, ht.admits.parent?, if_pos rfl]
  simp [Arena.freeAt, hk.entries ht.entry, entryOf, hparent]

theorem Takes.above_of_self (ht : s.Takes t e isCopy (s.replyTarget e) i above)
    (hself : e.inReplyTo = e.messageId) (hne : e.messageId ≠ .empty) : above = none := by
  cases htarget : s.replyTarget e with
  | none => exact ht.admits.free htarget
  | some x =>
    have hx : e.messageId = x := by
      rw [← hself]
      unfold replyTarget at htarget
      split at htarget
      · exact Option.some.inj htarget
      · cases htarget
    obtain ⟨p, hp, ⟨_, habove⟩ | ⟨hbelow, _⟩⟩ := ht.admits.target htarget
    · exact habove
    · -- the container that it would come under is its own
      cases (hx ▸ ht.admits.own_id hne).symm.trans hp
      exact absurd (.refl _ _) hbelow

theorem Merged.refusals (h : s.Sound) (hm : s.Merged e t) :
    t.arena.refusals t.mailbox = s.arena.refusals s.mailbox := by
  rcases hm.takes with ⟨harena, hmailbox⟩ | ⟨_, _, ht⟩
  · rw [harena, hmailbox]
  · rw [ht.refusals h]
    simp

theorem Merged.tally_eq (hm : s.Merged e t) : t.tally = s.tally := by
  cases hm with
  | ignored _ _ _ htally => exact htally
  | duplicate _ _ _ _ htally => exact htally
  | taken _ _ htally => exact htally

theorem Run.refusals_merged (hr : Run Merged s es t) (h : s.Sound) :
    t.arena.refusals t.mailbox = s.arena.refusals s.mailbox ∧ t.tally = s.tally := by
  have hkept := hr.preserves
    (P := fun u => u.Sound ∧ u.arena.refusals u.mailbox = s.arena.refusals s.mailbox ∧
      u.tally = s.tally)
    (fun hu hm => ⟨hm.sound hu.1, (hm.refusals hu.1).trans hu.2.1, hm.tally_eq.trans hu.2.2⟩)
    ⟨h, rfl, rfl⟩
  exact hkept.2

/-- A run over a sent folder counts the links that it refuses. -/
theorem refused_eq_countP (h : s.Sound) (hrun : (mergeFolder es).run s = .ok () t) :
    t.sent.refused = s.sent.refused + (s.takenOver es).countP fun q =>
      q.1.answersKnown q.2 && t.arena.freeAt t.mailbox q.1.mailbox.size := by
  induction es generalizing s with
  | nil =>
    cases hrun
    rfl
  | cons e es ih =>
    obtain ⟨u, hu, hmerged⟩ := run_mergeSent h.ready e
    have hsound := hmerged.sound h
    have hrest := (run_forM_cons es hu).symm.trans hrun
    obtain ⟨t', ht', hafter⟩ := run_mergeFolder es hsound
    cases ht'.symm.trans hrest
    rw [ih hsound hrest, takenOver_cons hu]
    cases hmerged with
    | ignored _ _ hmailbox _ hsent => rw [hmailbox, if_neg (Nat.lt_irrefl _), hsent]
    | duplicate _ _ _ hmailbox _ hsent => rw [hmailbox, if_neg (Nat.lt_irrefl _), hsent]
    | @taken i above ht _ _ hsent =>
      rw [if_pos ht.grows, List.countP_cons, hsent, h.answersKnown_eq, ht.freeAt hafter.keeps]
      cases above <;> simp [add_assoc, add_comm]

theorem entry_of_mem (h : s.Sound) (hrun : (mergeFolder es).run s = .ok () t)
    (hq : q ∈ s.takenOver es) :
    ∃ i, t.mailbox.entries[q.1.mailbox.size]? = some (entryOf q.2 (some i) true) := by
  obtain ⟨u, _, i, _, ht, _, hafter⟩ := exists_takes_of_mem h hrun hq
  exact ⟨i, hafter.keeps.entries ht.entry⟩

/-- A message that is taken over and replies to itself replies to a known message and is free. -/
theorem refused_of_self (h : s.Sound) (hrun : (mergeFolder es).run s = .ok () t)
    (hq : q ∈ s.takenOver es) (hself : q.2.inReplyTo = q.2.messageId)
    (hne : q.2.inReplyTo ≠ .empty) :
    (q.1.answersKnown q.2 && t.arena.freeAt t.mailbox q.1.mailbox.size) = true := by
  obtain ⟨u, _, i, above, ht, htouched, hafter⟩ := exists_takes_of_mem h hrun hq
  have hknown : (q.1.arena.find? q.2.inReplyTo).isSome := by
    rw [← hself, or_self] at htouched
    exact Option.isSome_iff_ne_none.2 htouched
  rw [ht.freeAt hafter.keeps, ht.above_of_self hself (hself ▸ hne)]
  simp [answersKnown, hne, hknown]

end Assembly

end MailThread
