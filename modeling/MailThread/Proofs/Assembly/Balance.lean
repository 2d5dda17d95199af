import MailThread.Proofs.Assembly.Refusal
import MailThread.Proofs.Forest.Counts

namespace MailThread

def SentTally.read (t : SentTally) : Nat := t.merged + t.duplicates + t.ignored

/-- The number of envelopes in the mailbox that are not counted as merged. -/
def Assembly.unmerged (s : Assembly) : Int := s.mailbox.size - s.sent.merged

theorem Mailbox.length_contents (m : Mailbox) : m.contents.length = m.size := by
  simp [contents, size]

theorem Assembly.length_envelopes (s : Assembly) :
    s.mailbox.envelopes.toList.length = s.mailbox.size := by
  rw [Array.length_toList, Mailbox.size_envelopes]

namespace Assembling

variable {α β : Type} {s t u : Assembly} {e : Envelope} {es : List Envelope}

theorem bind_eq_ok {x : Assembling α} {f : α → Assembling β} {b : β}
    (h : (x >>= f).run s = .ok b u) : ∃ a t, x.run s = .ok a t ∧ (f a).run t = .ok b u := by
  rw [EStateM.run_bind] at h
  cases hx : x.run s with
  | ok a t =>
    rw [hx] at h
    exact ⟨a, t, rfl, h⟩
  | error f t =>
    rw [hx] at h
    cases h

/-- A computation that succeeds adds so much to the number of messages that were read and to that of
the envelopes that are not merged, and it takes nothing out of the mailbox. -/
def Adds (x : Assembling α) (read own : Int) : Prop :=
  ∀ s a t, x.run s = .ok a t →
    (t.sent.read : Int) = s.sent.read + read ∧ t.unmerged = s.unmerged + own ∧
      s.mailbox.size ≤ t.mailbox.size

namespace Adds

theorem bind {x : Assembling α} {f : α → Assembling β} {m n k l : Int} (hx : Adds x m n)
    (hf : ∀ a, Adds (f a) k l) : Adds (x >>= f) (m + k) (n + l) := by
  intro s b u h
  obtain ⟨a, t, hat, hbu⟩ := bind_eq_ok h
  obtain ⟨hread, hown, hsize⟩ := hx s a t hat
  obtain ⟨hread', hown', hsize'⟩ := hf a t b u hbu
  exact ⟨by omega, by omega, hsize.trans hsize'⟩

theorem none {x : Assembling α}
    (h : ∀ s a t, x.run s = .ok a t → t.mailbox = s.mailbox ∧ t.sent = s.sent) : Adds x 0 0 := by
  intro s a t hx
  obtain ⟨hmailbox, hsent⟩ := h s a t hx
  simp [Assembly.unmerged, hmailbox, hsent]

theorem after_none {x : Assembling α} {f : α → Assembling β} {k l : Int} (hx : Adds x 0 0)
    (hf : ∀ a, Adds (f a) k l) : Adds (x >>= f) k l := by
  simpa using hx.bind hf

end Adds

theorem adds_find? (id : Text) : Adds (find? id) 0 0 := .none fun s a t h => by
  cases h
  exact ⟨rfl, rfl⟩

theorem adds_lift {r : Except Fault α} : Adds (lift r) 0 0 := .none fun s a t h => by
  cases r <;> cases h
  exact ⟨rfl, rfl⟩

theorem adds_get : Adds (get : Assembling Assembly) 0 0 := .none fun s a t h => by
  cases h
  exact ⟨rfl, rfl⟩

theorem adds_container (i : Index) : Adds (container i) 0 0 :=
  adds_get.after_none fun _ => adds_lift

theorem adds_onArena (step : Arena → α × Arena) : Adds (onArena step) 0 0 :=
  .none fun s a t h => by
    cases h
    exact ⟨rfl, rfl⟩

theorem adds_seat (id : Text) : Adds (seat id) 0 0 := adds_onArena _

theorem adds_report (ev : Event) : Adds (report ev) 0 0 := .none fun s a t h => by
  cases h
  exact ⟨rfl, rfl⟩

theorem adds_link (i p : Index) : Adds (link i p) 0 0 :=
  (adds_onArena _).after_none fun _ => adds_lift

theorem adds_raise (i : Index) (d : Rat) : Adds (raise i d) 0 0 := by
  refine (adds_onArena _).after_none fun fault => .none fun s a t h => ?_
  cases fault <;> cases h
  exact ⟨rfl, rfl⟩

theorem adds_pushEntry (e : Entry) : Adds (pushEntry e) 0 1 := by
  intro s a t h
  cases h
  refine ⟨by simp, ?_, by simp [Mailbox.push, Mailbox.size]⟩
  simp only [Assembly.unmerged, Mailbox.push, Mailbox.size, Array.size_push]
  omega

theorem adds_place (i : Index) (e : Envelope) (isCopy : Bool) : Adds (place i e isCopy) 0 1 := by
  refine adds_get.after_none fun _ => adds_get.after_none fun _ => adds_lift.after_none fun a => ?_
  refine Adds.after_none (.none fun s _ t h => ?_) fun _ => adds_pushEntry _
  cases h
  exact ⟨rfl, rfl⟩

theorem adds_countSent {f : SentTally → SentTally} {read own : Int}
    (hread : ∀ t, ((f t).read : Int) = t.read + read)
    (hmerged : ∀ t, ((f t).merged : Int) = t.merged - own) : Adds (countSent f) read own := by
  intro s a t h
  cases h
  refine ⟨hread s.sent, ?_, le_rfl⟩
  simp only [Assembly.unmerged, hmerged]
  omega

theorem adds_merged : Adds (countSent fun t => { t with merged := t.merged + 1 }) 1 (-1) :=
  adds_countSent (fun t => by simp only [SentTally.read]; omega) fun t => by simp

theorem adds_ignored : Adds (countSent fun t => { t with ignored := t.ignored + 1 }) 1 0 :=
  adds_countSent (fun t => by simp only [SentTally.read]; omega) fun t => by simp

theorem adds_duplicate : Adds (countSent fun t => { t with duplicates := t.duplicates + 1 }) 1 0 :=
  adds_countSent (fun t => by simp only [SentTally.read]; omega) fun t => by simp

theorem adds_refused : Adds (countSent fun t => { t with refused := t.refused + 1 }) 0 0 :=
  adds_countSent (fun t => by simp [SentTally.read]) fun t => by simp

theorem adds_takeOver {rest : Assembling Unit} (i : Index) (e : Envelope) (h : Adds rest 0 0) :
    Adds (do
      place i e true
      countSent fun t => { t with merged := t.merged + 1 }
      rest) 1 0 := by
  have htake := (adds_place i e true).bind fun _ => adds_merged.bind fun _ => h
  simpa using htake

theorem adds_mergeSent (e : Envelope) : Adds (mergeSent e) 1 0 := by
  unfold mergeSent
  refine (adds_find? _).after_none fun own => (adds_find? _).after_none fun target => ?_
  match own, target with
  | none, none => exact adds_ignored
  | some i, target =>
    refine (adds_container i).after_none fun c => ?_
    split
    · exact adds_duplicate.bind fun _ => adds_report _
    · refine adds_takeOver i e ((adds_container i).after_none fun c => ?_)
      cases target with
      | none => exact adds_raise i c.date
      | some p =>
        refine (adds_link i p).after_none fun linked => ?_
        cases linked with
        | true => exact adds_raise p c.date
        | false =>
          exact adds_refused.after_none fun _ => (adds_report _).after_none fun _ => adds_raise i _
  | none, some p =>
    refine (adds_seat _).after_none fun i => adds_takeOver i e ?_
    exact (adds_link i p).after_none fun _ => adds_raise p e.date

theorem adds_mergeFolder (es : List Envelope) : Adds (mergeFolder es) es.length 0 := by
  unfold mergeFolder
  induction es with
  | nil =>
    refine .none fun s a t h => ?_
    cases h
    exact ⟨rfl, rfl⟩
  | cons e es ih =>
    rw [List.forM_eq_forM, List.forM_cons]
    have h := (adds_mergeSent e).bind fun _ => ih
    simpa [add_comm] using h

theorem run_mergeOwn_counts (h : mergeOwn.run s = .ok () t) :
    t.sent.read = s.sent.read + t.mailbox.size ∧ t.unmerged = s.unmerged := by
  unfold mergeOwn at h
  obtain ⟨first, _, hfirst, h⟩ := bind_eq_ok h
  cases hfirst
  obtain ⟨_, u, hu, h⟩ := bind_eq_ok h
  obtain ⟨copies, _, hcopies, h⟩ := bind_eq_ok h
  cases hcopies
  obtain ⟨_, v, hv, h⟩ := bind_eq_ok h
  obtain ⟨more, _, hmore, h⟩ := bind_eq_ok h
  cases hmore
  obtain ⟨hread, hown, hsize⟩ := adds_mergeFolder _ _ _ _ hu
  obtain ⟨hread', hown', hsize'⟩ := adds_mergeFolder _ _ _ _ hv
  split at h
  next hempty =>
    -- nothing is left behind what was read
    cases h
    have hleft := List.drop_eq_nil_iff.1 (List.isEmpty_iff.1 hempty)
    simp only [Assembly.length_envelopes, List.length_drop, List.drop_zero] at *
    omega
  next => cases h

end Assembling

def Entry.refers (e : Entry) : Bool :=
  !e.isCopy && e.envelope.thread.isSome && e.envelope.parentId?.isSome

/-- The number of entries that were received, have a container and name a parent. -/
def Mailbox.references (m : Mailbox) : Nat := m.entries.toList.countP Entry.refers

theorem Mailbox.references_push (m : Mailbox) (e : Entry) :
    (m.push e).references = m.references + if e.refers then 1 else 0 := by
  simp [references, push, List.countP_append, List.countP_singleton]

namespace Assembly

variable {s t : Assembly} {e : Envelope} {es : List Envelope} {i : Index} {isCopy : Bool}
  {parentId : Option Text} {above : Option Index} {n : Nat}

/-- The envelopes of the mailbox are those in containers and the duplicates, and the messages with a
parent are those that name one, `n` of them sent ones, and were not refused. -/
structure Balanced (s : Assembly) (n : Nat) : Prop where
  held : s.mailbox.size = s.arena.held.ncard + s.tally.duplicates
  hung : s.arena.hung.ncard + (s.tally.refused + s.sent.refused) = s.mailbox.references + n

theorem balanced_start : Balanced {} 0 := by
  have hheld : ({} : Arena).held = ∅ := by
    ext i
    simp [Arena.held, Arena.message?, Arena.get?_empty]
  have hhung : ({} : Arena).hung = ∅ := by
    ext i
    simp [Arena.hung, Arena.parent?, Arena.get?_empty]
  constructor
  · simp [hheld, Mailbox.size]
  · simp [hhung, Mailbox.references]

section Takes

variable (ht : s.Takes t e isCopy parentId i above) (h : s.Sound)
include ht h

omit h in
theorem Takes.ncard_held : t.arena.held.ncard = s.arena.held.ncard + 1 := by
  have hi : i ∉ s.arena.held := fun hi => hi (ht.admits_envelopes.unheld ht.waiting)
  have hheld : t.arena.held = insert i s.arena.held := by
    ext j
    simp only [Arena.held, Set.mem_ofPred_eq, Set.mem_insert_iff, ht.admits.message?]
    by_cases hj : j = i <;> simp [hj]
  rw [hheld, Set.ncard_insert_of_notMem hi s.arena.finite_held]

theorem Takes.ncard_hung :
    t.arena.hung.ncard = s.arena.hung.ncard + if above.isSome then 1 else 0 := by
  have hfree : s.arena.parent? i = none :=
    h.ready.topmost i (ht.admits_envelopes.unheld ht.waiting)
  have hi : i ∉ s.arena.hung := fun hi => hi hfree
  cases above with
  | none =>
    have hhung : t.arena.hung = s.arena.hung := by
      ext j
      simp only [Arena.hung, Set.mem_ofPred_eq, ht.admits.parent?]
      by_cases hj : j = i <;> simp [hj, hfree]
    simp [hhung]
  | some p =>
    have hhung : t.arena.hung = insert i s.arena.hung := by
      ext j
      simp only [Arena.hung, Set.mem_ofPred_eq, Set.mem_insert_iff, ht.admits.parent?]
      by_cases hj : j = i <;> simp [hj]
    rw [hhung, Set.ncard_insert_of_notMem hi s.arena.finite_hung]
    rfl

theorem Takes.hung_add_refused :
    t.arena.hung.ncard + (if parentId.isSome ∧ above = none then 1 else 0) =
      s.arena.hung.ncard + if parentId.isSome then 1 else 0 := by
  rw [ht.ncard_hung h]
  cases hp : parentId with
  | none => simp [ht.admits.free hp]
  | some x => cases above <;> simp

omit h in
theorem Takes.size : t.mailbox.size = s.mailbox.size + 1 := by
  simp [ht.mailbox, Mailbox.size, Mailbox.push]

omit h in
theorem Takes.references :
    t.mailbox.references =
      s.mailbox.references + if isCopy = false ∧ e.parentId?.isSome then 1 else 0 := by
  rw [ht.mailbox, Mailbox.references_push]
  have hreference : ({ e with thread := some i } : Envelope).parentId? = e.parentId? := rfl
  simp [Entry.refers, entryOf, hreference]

end Takes

theorem Received.balanced (h : s.Sound) (hb : s.Balanced n) (hr : s.Received e t) :
    t.Balanced n := by
  cases hr with
  | duplicate _ _ harena hmailbox htally hsent =>
    have hsize : t.mailbox.size = s.mailbox.size + 1 := by
      simp [hmailbox, Mailbox.size, Mailbox.push]
    have hreferences : t.mailbox.references = s.mailbox.references := by
      simp [hmailbox, Mailbox.references_push, Entry.refers, entryOf]
    have hduplicates : t.tally.duplicates = s.tally.duplicates + 1 := by rw [htally]
    have hrefused : t.tally.refused = s.tally.refused := by rw [htally]
    constructor
    · rw [hsize, hduplicates, harena, hb.held]
      omega
    · rw [hreferences, hrefused, harena, hsent, hb.hung]
  | taken ht htally hsent =>
    have hduplicates : t.tally.duplicates = s.tally.duplicates := by rw [htally]
    have hrefused := congrArg Tally.refused htally
    have hhung := ht.hung_add_refused h
    constructor
    · rw [ht.size, hduplicates, ht.ncard_held, hb.held]
      omega
    · have hlinks := hb.hung
      have hreferences := ht.references
      simp only [true_and] at hrefused hreferences
      rw [hsent]
      omega

theorem Merged.balanced (h : s.Sound) (hb : s.Balanced n) (hm : s.Merged e t) :
    t.Balanced (n + if s.mailbox.size < t.mailbox.size ∧ s.answersKnown e then 1 else 0) := by
  rw [h.answersKnown_eq]
  cases hm with
  | ignored _ harena hmailbox htally hsent =>
    have hrefused : t.sent.refused = s.sent.refused := by rw [hsent]
    constructor
    · rw [harena, hmailbox, htally, hb.held]
    · rw [harena, hmailbox, htally, hrefused, hb.hung]
      simp
  | duplicate _ _ harena hmailbox htally hsent =>
    have hrefused : t.sent.refused = s.sent.refused := by rw [hsent]
    constructor
    · rw [harena, hmailbox, htally, hb.held]
    · rw [harena, hmailbox, htally, hrefused, hb.hung]
      simp
  | taken ht _ htally hsent =>
    have hrefused := congrArg SentTally.refused hsent
    have hhung := ht.hung_add_refused h
    have hreferences := ht.references
    have hlinks := hb.hung
    constructor
    · rw [ht.size, htally, ht.ncard_held, hb.held]
      omega
    · simp only [ht.grows, true_and, Bool.true_eq_false, false_and, if_false] at *
      rw [htally]
      omega

theorem Run.balanced (hr : Run Received s es t) (h : s.Sound) (hb : s.Balanced n) :
    t.Balanced n := by
  have hkept : t.Sound ∧ t.Balanced n :=
    hr.preserves (P := fun u => u.Sound ∧ u.Balanced n)
      (fun hu hr => ⟨hr.sound hu.1, hr.balanced hu.1 hu.2⟩) ⟨h, hb⟩
  exact hkept.2

/-- A run over a sent folder adds the links of those messages taken over that reply to a message known
to the assembly that they meet. -/
theorem run_mergeFolder_balanced (h : s.Sound) (hb : s.Balanced n) (es : List Envelope) :
    ∃ t, (Assembling.mergeFolder es).run s = .ok () t ∧
      t.Balanced (n + (s.takenOver es).countP fun q => q.1.answersKnown q.2) := by
  induction es generalizing s n with
  | nil => exact ⟨s, rfl, hb⟩
  | cons e es ih =>
    obtain ⟨u, hrun, hmerged⟩ := Assembling.run_mergeSent h.ready e
    obtain ⟨t, hrest, hbalanced⟩ := ih (hmerged.sound h) (hmerged.balanced h hb)
    refine ⟨t, (Assembling.run_forM_cons es hrun).trans hrest, ?_⟩
    rw [takenOver_cons hrun]
    by_cases hgrows : s.mailbox.size < u.mailbox.size
    · simpa only [hgrows, true_and, if_true, List.countP_cons, add_assoc, add_comm] using hbalanced
    · simpa only [hgrows, false_and, if_false, add_zero] using hbalanced

end Assembly

end MailThread
