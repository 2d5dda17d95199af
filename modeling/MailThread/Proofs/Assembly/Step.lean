import MailThread.Assembly.Sent
import MailThread.Proofs.Arena.Admission
import Mathlib.Tactic.Push

namespace MailThread

theorem Envelope.parentId?_ne {e : Envelope} {x : Text} (h : e.parentId? = some x) :
    x ≠ .empty ∧ x ≠ e.messageId := by
  have hx : x ∈ e.followed := List.mem_of_getLast? h
  unfold followed at hx
  simp only at hx
  split at hx
  next hr =>
    rcases List.mem_append.1 hx with hx | hx
    · simpa using (List.mem_filter.1 hx).2
    · rw [List.mem_singleton.1 hx]
      exact ⟨hr.1, hr.2.1⟩
  next => simpa using (List.mem_filter.1 hx).2

namespace Assembly

variable {s s' : Assembly} {e : Envelope}

def entryOf (e : Envelope) (thread : Option Index) (isCopy : Bool) : Entry :=
  { envelope := { e with thread }, isCopy }

/-- The message of `e`, or a copy of it, comes into the container `i` under `above`. -/
structure Takes (s s' : Assembly) (e : Envelope) (isCopy : Bool) (parentId : Option Text)
    (i : Index) (above : Option Index) : Prop where
  waiting : ∀ j, s.arena.find? e.messageId = some j → s.arena.message? j = none
  seat : i = (s.arena.seat e.messageId).1
  arena : s'.arena = s.arena.entered e.messageId (.slot s.mailbox.size) e.date parentId
  admits : s.arena.Admits s'.arena e.messageId (.slot s.mailbox.size) e.date parentId i above
  mailbox : s'.mailbox = s.mailbox.push (entryOf e (some i) isCopy)

/-- What receiving an envelope does. -/
inductive Received (s : Assembly) (e : Envelope) (s' : Assembly) : Prop
  | duplicate {i : Index} (named : e.messageId ≠ .empty ∧ s.arena.find? e.messageId = some i)
      (held : s.arena.message? i ≠ none) (arena : s'.arena = s.arena)
      (mailbox : s'.mailbox = s.mailbox.push (entryOf e none false))
      (tally : s'.tally = { s.tally with duplicates := s.tally.duplicates + 1 })
      (sent : s'.sent = s.sent)
  | taken {i : Index} {above : Option Index} (takes : s.Takes s' e false e.parentId? i above)
      (tally : s'.tally = { s.tally with
        refused := s.tally.refused + if e.parentId?.isSome ∧ above = none then 1 else 0 })
      (sent : s'.sent = s.sent)

/-- The message under which a sent message is placed: the one it replies to, if that is known. -/
def replyTarget (s : Assembly) (e : Envelope) : Option Text :=
  if (s.arena.find? e.inReplyTo).isSome then some e.inReplyTo else none

/-- What merging a sent message does. -/
inductive Merged (s : Assembly) (e : Envelope) (s' : Assembly) : Prop
  | ignored (unknown : s.arena.find? e.messageId = none ∧ s.arena.find? e.inReplyTo = none)
      (arena : s'.arena = s.arena) (mailbox : s'.mailbox = s.mailbox) (tally : s'.tally = s.tally)
      (sent : s'.sent = { s.sent with ignored := s.sent.ignored + 1 })
  | duplicate {i : Index} (named : s.arena.find? e.messageId = some i)
      (held : s.arena.message? i ≠ none) (arena : s'.arena = s.arena)
      (mailbox : s'.mailbox = s.mailbox) (tally : s'.tally = s.tally)
      (sent : s'.sent = { s.sent with duplicates := s.sent.duplicates + 1 })
  | taken {i : Index} {above : Option Index} (takes : s.Takes s' e true (s.replyTarget e) i above)
      (touched : s.arena.find? e.messageId ≠ none ∨ s.arena.find? e.inReplyTo ≠ none)
      (tally : s'.tally = s.tally)
      (sent : s'.sent = { s.sent with
        merged := s.sent.merged + 1
        refused := s.sent.refused + if (s.replyTarget e).isSome ∧ above = none then 1 else 0 })

end Assembly

namespace Assembling

open Arena

variable {α β : Type} {s s' : Assembly} {e : Envelope} {i p : Index} {a : Arena}

theorem run_bind_ok {x : Assembling α} {f : α → Assembling β} {r : α} (h : x.run s = .ok r s') :
    (x >>= f).run s = (f r).run s' := by
  simp only [EStateM.run_bind, h]

theorem run_find? (h : s.arena.Named) (id : Text) :
    (find? id).run s = .ok (s.arena.find? id) s := by
  change EStateM.Result.ok (if id = .empty then none else s.arena.find? id) s = _
  split
  next hid => rw [hid, h.full]
  next => rfl

theorem run_container {c : Container} (h : s.arena.get? i = some c) :
    (container i).run s = .ok c s := by
  simp [container, get_of_get? h, lift]

theorem run_onArena (step : Arena → α × Arena) (s : Assembly) :
    (onArena step).run s = .ok (step s.arena).1 { s with arena := (step s.arena).2 } := rfl

theorem run_seat (id : Text) (s : Assembly) :
    (seat id).run s = .ok (s.arena.seat id).1 { s with arena := (s.arena.seat id).2 } := rfl

theorem run_place {isCopy : Bool} (h : s.arena.bind i (.slot s.mailbox.size) e.date = .ok a) :
    (place i e isCopy).run s =
      .ok ()
        { s with
          arena := a
          mailbox := s.mailbox.push (Assembly.entryOf e (some i) isCopy) } := by
  unfold place
  rw [run_bind_ok (EStateM.run_get s), run_bind_ok (EStateM.run_get s), h]
  rfl

/-- A message is put into the container that it has just taken. -/
theorem run_place_seat {isCopy : Bool}
    (h : (s.arena.seat e.messageId).2.bind (s.arena.seat e.messageId).1 (.slot s.mailbox.size)
      e.date = .ok a) :
    (place (s.arena.seat e.messageId).1 e isCopy).run
        { s with arena := (s.arena.seat e.messageId).2 } =
      .ok ()
        { s with
          arena := a
          mailbox := s.mailbox.push
            (Assembly.entryOf e (some (s.arena.seat e.messageId).1) isCopy) } :=
  run_place (s := { s with arena := (s.arena.seat e.messageId).2 }) h

theorem run_parentSeat (id : Text) (d : Rat) (s : Assembly) :
    (parentSeat id d).run s =
      .ok (s.arena.parentSeat id d).1 { s with arena := (s.arena.parentSeat id d).2 } := by
  unfold parentSeat Arena.parentSeat
  rw [run_bind_ok (EStateM.run_get s)]
  cases s.arena.find? id <;> rfl

theorem run_link {linked : Bool} (h : s.arena.link i p = (a, .ok linked)) :
    (link i p).run s = .ok linked { s with arena := a } := by
  unfold link
  rw [run_bind_ok (run_onArena _ s), h]
  rfl

theorem run_raise {d : Rat} (h : s.arena.raise i d = (a, none)) :
    (raise i d).run s = .ok () { s with arena := a } := by
  unfold raise
  rw [run_bind_ok (run_onArena _ s), h]
  rfl

theorem run_report (ev : Event) (s : Assembly) :
    (report ev).run s = .ok () { s with events := s.events ++ [ev] } := rfl

theorem run_countSent (f : SentTally → SentTally) (s : Assembly) :
    (countSent f).run s = .ok () { s with sent := f s.sent } := rfl

def takeIn (e : Envelope) : Assembling Unit := do
  let i ← seat e.messageId
  place i e false
  let date := (← container i).date
  match e.parentId? with
  | none => raise i date
  | some parentId =>
    let p ← parentSeat parentId date
    if ← link i p then
      raise p date
    else
      modify fun s => { s with tally := { s.tally with refused := s.tally.refused + 1 } }
      report (.linkRefused e.messageId parentId)
      raise i date

theorem run_receive_of_waiting (h : s.arena.Named)
    (hw : ∀ j, s.arena.find? e.messageId = some j → s.arena.message? j = none) :
    (receive e).run s = (takeIn e).run s := by
  unfold receive
  rw [run_bind_ok (run_find? h e.messageId)]
  cases hf : s.arena.find? e.messageId with
  | none => rfl
  | some j =>
    obtain ⟨c, hc⟩ := mem_indices.1 (h.mem_of_find? hf)
    have hm := hw j hf
    rw [message?_of_get? hc] at hm
    simp only [run_bind_ok (run_container hc), hm]
    rfl

theorem run_takeIn (h : s.arena.Ready)
    (hw : ∀ j, s.arena.find? e.messageId = some j → s.arena.message? j = none) :
    ∃ s', (takeIn e).run s = .ok () s' ∧ s.Received e s' := by
  unfold takeIn
  rw [run_bind_ok (run_seat e.messageId s)]
  cases hp : e.parentId? with
  | none =>
    obtain ⟨a', c, b, ha', hc, hb, hentered, hadmits⟩ :=
      h.admit_free (d := e.date) (m := .slot s.mailbox.size) hw
    rw [run_bind_ok (run_place_seat ha'), run_bind_ok (run_container hc)]
    simp only
    rw [run_raise hb]
    exact ⟨_, rfl, .taken ⟨hw, rfl, hp ▸ hentered, hp ▸ hadmits, rfl⟩ (by simp [hp]) rfl⟩
  | some x =>
    obtain ⟨a', c, ha', hc, -, -, hlink⟩ :=
      h.admit_under (d := e.date) (m := .slot s.mailbox.size) hw (Envelope.parentId?_ne hp).1
    rw [run_bind_ok (run_place_seat ha'), run_bind_ok (run_container hc)]
    simp only
    rw [run_bind_ok (run_parentSeat x c.date _)]
    rcases hlink with ⟨b, hl, hb, hentered, hadmits⟩ | ⟨linked, b, hl, hb, hentered, hadmits⟩
    · rw [run_bind_ok (run_link hl)]
      simp only [Bool.false_eq_true, if_false]
      rw [run_bind_ok (EStateM.run_modify _ _), run_bind_ok (run_report _ _), run_raise hb]
      exact ⟨_, rfl, .taken ⟨hw, rfl, hp ▸ hentered, hp ▸ hadmits, rfl⟩ (by simp [hp]) rfl⟩
    · rw [run_bind_ok (run_link hl)]
      simp only [if_true]
      rw [run_raise hb]
      exact ⟨_, rfl, .taken ⟨hw, rfl, hp ▸ hentered, hp ▸ hadmits, rfl⟩ (by simp) rfl⟩

theorem run_receive (h : s.arena.Ready) (e : Envelope) :
    ∃ s', (receive e).run s = .ok () s' ∧ s.Received e s' := by
  by_cases hw : ∀ j, s.arena.find? e.messageId = some j → s.arena.message? j = none
  · rw [run_receive_of_waiting h.named hw]
    exact run_takeIn h hw
  · push Not at hw
    obtain ⟨i, hf, hm⟩ := hw
    obtain ⟨c, hc⟩ := mem_indices.1 (h.named.mem_of_find? hf)
    have hne : e.messageId ≠ .empty := h.named.ne_empty hf
    have hheld := hm
    rw [message?_of_get? hc] at hm
    obtain ⟨m, hm⟩ := Option.ne_none_iff_exists'.1 hm
    unfold receive
    rw [run_bind_ok (run_find? h.named e.messageId), hf]
    simp only [run_bind_ok (run_container hc), hm, Option.isSome_some]
    exact ⟨_, rfl, .duplicate ⟨hne, hf⟩ hheld rfl rfl rfl rfl⟩

/-- A sent message whose placeholder waits for it. -/
theorem run_mergeSent_of_waiting (h : s.arena.Ready) (hf : s.arena.find? e.messageId = some i)
    (hm : s.arena.message? i = none) :
    ∃ s', (mergeSent e).run s = .ok () s' ∧ s.Merged e s' := by
  have hw : ∀ j, s.arena.find? e.messageId = some j → s.arena.message? j = none := fun j hj => by
    cases hf.symm.trans hj
    exact hm
  obtain ⟨c₀, hc₀⟩ := mem_indices.1 (h.named.mem_of_find? hf)
  rw [message?_of_get? hc₀] at hm
  have hseat : i = (s.arena.seat e.messageId).1 := by rw [seat_of_find? h.named hf]
  have htouch : s.arena.find? e.messageId ≠ none ∨ s.arena.find? e.inReplyTo ≠ none := by
    simp [hf]
  unfold mergeSent
  rw [run_bind_ok (run_find? h.named e.messageId), run_bind_ok (run_find? h.named e.inReplyTo), hf]
  simp only [run_bind_ok (run_container hc₀), hm, Option.isSome_none, Bool.false_eq_true, if_false]
  cases ht : s.arena.find? e.inReplyTo with
  | none =>
    have htarget : s.replyTarget e = none := by simp [Assembly.replyTarget, ht]
    obtain ⟨a', c, b, ha', hc, hb, hentered, hadmits⟩ :=
      h.admit_free (d := e.date) (m := .slot s.mailbox.size) hw
    rw [seat_of_find? h.named hf] at ha' hc hb hadmits
    rw [run_bind_ok (run_place ha'), run_bind_ok (run_countSent _ _),
      run_bind_ok (run_container hc)]
    simp only
    rw [run_raise hb]
    exact ⟨_, rfl, .taken ⟨hw, hseat, htarget ▸ hentered, htarget ▸ hadmits, rfl⟩ htouch rfl
      (by simp [htarget])⟩
  | some p =>
    have htarget : s.replyTarget e = some e.inReplyTo := by simp [Assembly.replyTarget, ht]
    have hne : e.inReplyTo ≠ .empty := h.named.ne_empty ht
    obtain ⟨a', c, ha', hc, hkeeps, -, hlink⟩ :=
      h.admit_under (d := e.date) (m := .slot s.mailbox.size) hw hne
    rw [seat_of_find? h.named hf] at ha' hc hlink
    rw [parentSeat_of_find? (hkeeps ht)] at hlink
    rw [run_bind_ok (run_place ha'), run_bind_ok (run_countSent _ _),
      run_bind_ok (run_container hc)]
    simp only
    rcases hlink with ⟨b, hl, hb, hentered, hadmits⟩ | ⟨linked, b, hl, hb, hentered, hadmits⟩
    · rw [run_bind_ok (run_link hl)]
      simp only [Bool.false_eq_true, if_false]
      rw [run_bind_ok (run_countSent _ _), run_bind_ok (run_report _ _), run_raise hb]
      exact ⟨_, rfl, .taken ⟨hw, hseat, htarget ▸ hentered, htarget ▸ hadmits, rfl⟩ htouch rfl
      (by simp [htarget])⟩
    · rw [run_bind_ok (run_link hl)]
      simp only [if_true]
      rw [run_raise hb]
      exact ⟨_, rfl, .taken ⟨hw, hseat, htarget ▸ hentered, htarget ▸ hadmits, rfl⟩ htouch rfl
      (by simp)⟩

/-- A sent message for which nothing waits, but which replies to a message that is known. Its
container is new, so that no link of it is refused. -/
theorem run_mergeSent_of_reply (h : s.arena.Ready) (hf : s.arena.find? e.messageId = none)
    (ht : s.arena.find? e.inReplyTo = some p) :
    ∃ s', (mergeSent e).run s = .ok () s' ∧ s.Merged e s' := by
  have hw : ∀ j, s.arena.find? e.messageId = some j → s.arena.message? j = none := fun j hj => by
    rw [hf] at hj
    cases hj
  have htouch : s.arena.find? e.messageId ≠ none ∨ s.arena.find? e.inReplyTo ≠ none := by
    simp [ht]
  have htarget : s.replyTarget e = some e.inReplyTo := by simp [Assembly.replyTarget, ht]
  have hne : e.inReplyTo ≠ .empty := h.named.ne_empty ht
  have hnew := seat_new hf
  unfold mergeSent
  rw [run_bind_ok (run_find? h.named e.messageId), run_bind_ok (run_find? h.named e.inReplyTo), hf,
    ht]
  simp only
  rw [run_bind_ok (run_seat e.messageId s)]
  obtain ⟨a', c, ha', hc, hkeeps, hdate, hlink⟩ :=
    h.admit_under (d := e.date) (m := .slot s.mailbox.size) hw hne
  rw [parentSeat_of_find? (hkeeps ht)] at hlink
  rw [run_bind_ok (run_place_seat ha'), run_bind_ok (run_countSent _ _)]
  rcases hlink with ⟨b, hl, hb, hentered, hadmits⟩ | ⟨linked, b, hl, hb, hentered, hadmits⟩
  · -- a refusal would put the known container below the new one
    obtain ⟨q, hq, habove⟩ := hadmits.target rfl
    cases (hadmits.keeps ht).symm.trans hq
    have hbelow := habove.elim And.left fun hne => absurd hne.2 (by simp)
    exact absurd (h.linked.rooted.mem_of_below (h.named.mem_of_find? ht) hbelow) hnew
  · rw [hdate (h.linked.kids_of_notMem hnew)] at hb
    rw [run_bind_ok (run_link hl), run_raise hb]
    exact ⟨_, rfl, .taken ⟨hw, rfl, htarget ▸ hentered, htarget ▸ hadmits, rfl⟩ htouch rfl
      (by simp)⟩

theorem run_mergeSent (h : s.arena.Ready) (e : Envelope) :
    ∃ s', (mergeSent e).run s = .ok () s' ∧ s.Merged e s' := by
  cases hf : s.arena.find? e.messageId with
  | none =>
    cases ht : s.arena.find? e.inReplyTo with
    | none =>
      unfold mergeSent
      rw [run_bind_ok (run_find? h.named e.messageId),
        run_bind_ok (run_find? h.named e.inReplyTo), hf, ht]
      exact ⟨_, rfl, .ignored ⟨hf, ht⟩ rfl rfl rfl rfl⟩
    | some p => exact run_mergeSent_of_reply h hf ht
  | some i =>
    by_cases hm : s.arena.message? i = none
    · exact run_mergeSent_of_waiting h hf hm
    · obtain ⟨c, hc⟩ := mem_indices.1 (h.named.mem_of_find? hf)
      have hheld := hm
      rw [message?_of_get? hc] at hm
      obtain ⟨m, hm⟩ := Option.ne_none_iff_exists'.1 hm
      unfold mergeSent
      rw [run_bind_ok (run_find? h.named e.messageId),
        run_bind_ok (run_find? h.named e.inReplyTo), hf]
      simp only [run_bind_ok (run_container hc), hm, Option.isSome_some]
      exact ⟨_, rfl, .duplicate hf hheld rfl rfl rfl rfl⟩

end Assembling

end MailThread
