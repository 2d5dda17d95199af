import MailThread.Proofs.Assembly.Merge
import MailThread.Proofs.Forest.Layout
import Mathlib.Data.List.Nodup

namespace MailThread

namespace Mailbox

variable {m : Mailbox} {e e' : Entry} {k : Nat}

theorem getElem?_envelopes (m : Mailbox) (k : Nat) :
    m.envelopes[k]? = m.entries[k]?.map (·.envelope) := by
  simp [envelopes]

theorem getElem?_push (he : (m.push e').entries[k]? = some e) :
    (k = m.size ∧ e = e') ∨ m.entries[k]? = some e := by
  rw [push, Array.getElem?_push] at he
  split at he
  next hk => exact .inl ⟨hk, (Option.some.inj he).symm⟩
  next => exact .inr he

theorem getElem?_push_of_some (he : m.entries[k]? = some e) : (m.push e').entries[k]? = some e := by
  obtain ⟨hk, _⟩ := Array.getElem?_eq_some_iff.1 he
  rw [push, Array.getElem?_push, if_neg hk.ne, he]

theorem mem_push : e ∈ (m.push e').entries ↔ e ∈ m.entries ∨ e = e' := by simp [push]

/-- The entry `e` at position `k` is a message of the mailbox itself with an id that an earlier entry
has. -/
def Repeats (m : Mailbox) (k : Nat) (e : Entry) : Prop :=
  e.isCopy = false ∧ e.envelope.messageId ≠ .empty ∧
    ∃ (l : Nat) (e' : Entry), l < k ∧ m.entries[l]? = some e' ∧
      e'.envelope.messageId = e.envelope.messageId

theorem Repeats.push (h : m.Repeats k e) : (m.push e').Repeats k e := by
  obtain ⟨hcopy, hne, l, d, hl, hd, hid⟩ := h
  exact ⟨hcopy, hne, l, d, hl, getElem?_push_of_some hd, hid⟩

def nameless (m : Mailbox) : List Index :=
  (m.entries.toList.filter (·.envelope.messageId = .empty)).filterMap (·.envelope.thread)

end Mailbox

namespace Entry

/-- The entry came in with a container of its own, by its parent reference. -/
def Filed (e : Entry) : Prop := e.isCopy = false ∧ e.envelope.thread ≠ none

def Mentions (e : Entry) (x : Text) : Prop :=
  e.envelope.messageId = x ∨ (e.Filed ∧ e.envelope.parentId? = some x)

end Entry

namespace Arena

variable {a b : Arena} {m : Mailbox} {es : Array Envelope} {e e' : Entry} {i j : Index} {k l : Nat}
  {x : Text}

theorem Sound.exists_of_held (h : a.Sound es) (hf : a.find? x = some i) (hm : a.message? i ≠ none) :
    ∃ (l : Nat) (e : Envelope), l < es.size ∧ es[l]? = some e ∧ e.messageId = x := by
  obtain ⟨m, hm⟩ := Option.ne_none_iff_exists'.1 hm
  obtain ⟨l, e, rfl, hl⟩ := h.holds_of_message? hm
  exact ⟨l, e, h.lt_size hm, hl.2, ((h.owned hl x).1 hf).1.symm⟩

namespace Sound

variable (h : a.Sound m.envelopes)
include h

theorem holds_of_thread (he : m.entries[k]? = some e) (ht : e.envelope.thread = some i) :
    a.Holds m.envelopes i k e.envelope := by
  have he' : m.envelopes[k]? = some e.envelope := by rw [m.getElem?_envelopes, he]; rfl
  exact ⟨(h.pointed he').1 ht, he'⟩

theorem exists_entry (hi : a.message? i = some (.slot k)) :
    ∃ e, m.entries[k]? = some e ∧ e.envelope.thread = some i := by
  obtain ⟨d, hd⟩ := h.holds_of_slot hi
  obtain ⟨e, he, rfl⟩ := Option.map_eq_some_iff.1 (m.getElem?_envelopes k ▸ hd.2)
  exact ⟨e, he, (h.pointed hd.2).2 hi⟩

theorem find?_of_thread (he : m.entries[k]? = some e) (ht : e.envelope.thread = some i)
    (hne : e.envelope.messageId ≠ .empty) : a.find? e.envelope.messageId = some i :=
  (h.owned (h.holds_of_thread he ht) _).2 ⟨rfl, hne⟩

/-- No two entries have the same container. -/
theorem pairwise_thread :
    m.entries.toList.Pairwise fun e e' => ∀ i, e.envelope.thread = some i →
      e'.envelope.thread ≠ some i := by
  rw [List.pairwise_iff_getElem]
  intro k l hk hl hkl i hi hi'
  have hat : ∀ n (hn : n < m.entries.toList.length),
      m.entries[n]? = some m.entries.toList[n] := fun n hn => by
    rw [← Array.getElem?_toList, List.getElem?_eq_getElem hn]
  have hslot := (h.holds_of_thread (hat k hk) hi).1.symm.trans (h.holds_of_thread (hat l hl) hi').1
  cases hslot
  exact absurd hkl (Nat.lt_irrefl k)

theorem nodup_nameless : m.nameless.Nodup := by
  refine List.Pairwise.filterMap _ ?_ (h.pairwise_thread.filter _)
  rintro e e' hne i hi j hj rfl
  exact hne i hi hj

theorem mem_nameless : i ∈ m.nameless ↔ ∃ k e, a.Holds m.envelopes i k e ∧ e.messageId = .empty := by
  simp only [Mailbox.nameless, List.mem_filterMap, List.mem_filter, Array.mem_toList_iff,
    decide_eq_true_eq]
  constructor
  · rintro ⟨e, ⟨he, hid⟩, ht⟩
    obtain ⟨k, hk⟩ := Array.mem_iff_getElem?.1 he
    exact ⟨k, _, h.holds_of_thread hk ht, hid⟩
  · rintro ⟨k, d, hd, hid⟩
    obtain ⟨e, he, ht⟩ := h.exists_entry hd.1
    cases (h.holds_of_thread he ht).2.symm.trans hd.2
    exact ⟨e, ⟨Array.mem_iff_getElem?.2 ⟨k, he⟩, hid⟩, ht⟩

end Sound

/-- The ids and placeholders of an arena are those that the entries of a mailbox mention, and an entry
stays without a container only as the repetition of an earlier one. -/
structure Registered (a : Arena) (m : Mailbox) : Prop where
  unbound : ∀ {k : Nat} {e : Entry}, m.entries[k]? = some e → e.envelope.thread = none →
    m.Repeats k e
  mentioned : ∀ {x i}, a.find? x = some i → ∃ e ∈ m.entries, e.Mentions x
  referred : ∀ {e x}, e ∈ m.entries → e.Filed → e.envelope.parentId? = some x →
    (a.find? x).isSome
  awaited : ∀ i ∈ a.indices, a.message? i = none → ∃ x, a.find? x = some i

theorem Redrawn.registered (h : a.Redrawn b) (hr : a.Registered m) : b.Registered m where
  unbound := hr.unbound
  mentioned := fun hx => hr.mentioned (h.find?_eq _ ▸ hx)
  referred := fun he hf hx => by
    rw [h.find?_eq]
    exact hr.referred he hf hx
  awaited := fun i hi hm => by
    simp only [h.find?_eq]
    exact hr.awaited i (h.mem_indices.1 hi) (h.message?_eq i ▸ hm)

theorem Registered.unbound_push (hr : a.Registered m)
    (hlast : e'.envelope.thread = none → m.Repeats m.size e')
    (he : (m.push e').entries[k]? = some e) (hnone : e.envelope.thread = none) :
    (m.push e').Repeats k e := by
  rcases Mailbox.getElem?_push he with ⟨rfl, rfl⟩ | he
  · exact (hlast hnone).push
  · exact (hr.unbound he hnone).push

end Arena

namespace Assembly

variable {s t : Assembly} {e : Envelope} {es : List Envelope} {i : Index} {isCopy : Bool}
  {parentId : Option Text} {above : Option Index}

def Registered (s : Assembly) : Prop := s.arena.Registered s.mailbox

theorem registered_start : Registered {} where
  unbound := fun he => by simp at he
  mentioned := fun hx => by cases hx
  referred := fun he => by simp at he
  awaited := fun i hi => absurd hi (Arena.notMem_indices_empty i)

section Takes

variable (ht : s.Takes t e isCopy parentId i above)
include ht

theorem Takes.mem_entries {d : Entry} :
    d ∈ t.mailbox.entries ↔ d ∈ s.mailbox.entries ∨ d = entryOf e (some i) isCopy := by
  rw [ht.mailbox, Mailbox.mem_push]

theorem Takes.awaited (hr : s.Registered) {j : Index} (hj : j ∈ t.arena.indices)
    (hm : t.arena.message? j = none) : ∃ x, t.arena.find? x = some j := by
  have hs := ht.admits
  rw [hs.message?] at hm
  split at hm
  next => cases hm
  next hji =>
    rcases (hs.mem j).1 hj with hj | hj | hj
    · obtain ⟨x, hx⟩ := hr.awaited j hj hm
      exact ⟨x, hs.keeps hx⟩
    · exact absurd hj hji
    · -- a new placeholder is that of the parent
      cases hparent : parentId with
      | none =>
        rw [hs.free hparent] at hj
        cases hj
      | some x =>
        obtain ⟨p, hp, ⟨_, hnone⟩ | ⟨_, habove⟩⟩ := hs.target hparent
        · rw [hnone] at hj
          cases hj
        · cases habove.symm.trans hj
          exact ⟨x, hp⟩

variable (hreference : isCopy = false → parentId = e.parentId?)
include hreference

theorem Takes.mentioned (h : s.Sound) (hr : s.Registered)
    (hknown : isCopy = true → ∀ x, parentId = some x → (s.arena.find? x).isSome) {x : Text}
    {p : Index} (hx : t.arena.find? x = some p) : ∃ d ∈ t.mailbox.entries, d.Mentions x := by
  have hnew : entryOf e (some i) isCopy ∈ t.mailbox.entries := ht.mem_entries.2 (.inr rfl)
  rcases ht.admits.find?_cases hx with hold | ⟨rfl, _, _⟩ | ⟨hparent, _, hp⟩
  · obtain ⟨d, hd, hmentions⟩ := hr.mentioned hold
    exact ⟨d, ht.mem_entries.2 (.inl hd), hmentions⟩
  · exact ⟨_, hnew, .inl rfl⟩
  · cases hcopy : isCopy with
    | false =>
      rw [hreference hcopy] at hparent
      exact ⟨_, hnew, .inr ⟨⟨hcopy, nofun⟩, hparent⟩⟩
    | true =>
      -- a copy makes no new container for its parent
      obtain ⟨q, hq⟩ := Option.isSome_iff_exists.1 (hknown hcopy x hparent)
      cases (ht.admits.keeps hq).symm.trans hx
      exact absurd (h.ready.named.mem_of_find? hq) hp

theorem Takes.referred (hr : s.Registered) {d : Entry} {x : Text} (hd : d ∈ t.mailbox.entries)
    (hfiled : d.Filed) (hx : d.envelope.parentId? = some x) : (t.arena.find? x).isSome := by
  rcases ht.mem_entries.1 hd with hd | rfl
  · obtain ⟨p, hp⟩ := Option.isSome_iff_exists.1 (hr.referred hd hfiled hx)
    rw [ht.admits.keeps hp]
    rfl
  · obtain ⟨p, hp, _⟩ := ht.admits.target ((hreference hfiled.1).trans hx)
    rw [hp]
    rfl

theorem Takes.registered (h : s.Sound) (hr : s.Registered)
    (hknown : isCopy = true → ∀ x, parentId = some x → (s.arena.find? x).isSome) :
    t.Registered where
  unbound := fun hd hnone => by
    rw [ht.mailbox] at hd ⊢
    exact Arena.Registered.unbound_push hr (fun hnone => by cases hnone) hd hnone
  mentioned := ht.mentioned hreference h hr hknown
  referred := ht.referred hreference hr
  awaited := fun _ => ht.awaited hr

end Takes

theorem Received.registered (h : s.Sound) (hr : s.Registered) (hreceived : s.Received e t) :
    t.Registered := by
  cases hreceived with
  | taken ht => exact ht.registered (fun _ => rfl) h hr nofun
  | @duplicate i hnamed hheld harena hmailbox =>
    have hlast : s.mailbox.Repeats s.mailbox.size (entryOf e none false) := by
      obtain ⟨l, d, hl, hd, hid⟩ := h.exists_of_held hnamed.2 hheld
      rw [envelopes, Mailbox.size_envelopes] at hl
      rw [envelopes, Mailbox.getElem?_envelopes] at hd
      obtain ⟨entry, hentry, rfl⟩ := Option.map_eq_some_iff.1 hd
      exact ⟨rfl, hnamed.1, l, entry, hl, hentry, hid⟩
    unfold Registered
    rw [harena, hmailbox]
    refine ⟨fun hd hnone => ?_, fun hx => ?_, fun hd hfiled hx => ?_, hr.awaited⟩
    · exact Arena.Registered.unbound_push hr (fun _ => hlast) hd hnone
    · obtain ⟨d, hd, hmentions⟩ := hr.mentioned hx
      exact ⟨d, Mailbox.mem_push.2 (.inl hd), hmentions⟩
    · rcases Mailbox.mem_push.1 hd with hd | rfl
      · exact hr.referred hd hfiled hx
      · exact absurd rfl hfiled.2

theorem Merged.registered (h : s.Sound) (hr : s.Registered) (hm : s.Merged e t) :
    t.Registered := by
  rcases hm.takes with ⟨harena, hmailbox⟩ | ⟨i, above, ht⟩
  · unfold Registered
    rwa [harena, hmailbox]
  · refine ht.registered nofun h hr fun _ x hx => ?_
    unfold replyTarget at hx
    split at hx
    next hknown => rwa [← Option.some.inj hx]
    next => cases hx

theorem Run.registered {step : Assembly → Envelope → Assembly → Prop} (hr : Run step s es t)
    (hsound : ∀ {s e t}, s.Sound → step s e t → t.Sound)
    (hregistered : ∀ {s e t}, s.Sound → s.Registered → step s e t → t.Registered)
    (h : s.Sound) (hs : s.Registered) : t.Registered := by
  have hboth := hr.preserves (P := fun s => s.Sound ∧ s.Registered)
    (fun ⟨h, hs⟩ hstep => ⟨hsound h hstep, hregistered h hs hstep⟩) ⟨h, hs⟩
  exact hboth.2

end Assembly

namespace Arena.Registered

variable {a : Arena} {m : Mailbox} {e e' : Entry} {i j : Index} {k l : Nat} {x : Text}
  (h : a.Registered m)
include h

/-- Of the entries with an id the first one has a container. -/
theorem exists_bound (he : m.entries[k]? = some e) (hne : e.envelope.messageId ≠ .empty) :
    ∃ (l : Nat) (e' : Entry) (i : Index), l ≤ k ∧ m.entries[l]? = some e' ∧
      e'.envelope.messageId = e.envelope.messageId ∧ e'.envelope.thread = some i := by
  induction k using Nat.strong_induction_on generalizing e with
  | h k ih =>
    cases ht : e.envelope.thread with
    | some i => exact ⟨k, e, i, le_rfl, he, rfl, ht⟩
    | none =>
      obtain ⟨_, _, l, d, hl, hd, hid⟩ := h.unbound he ht
      obtain ⟨n, e', i, hn, he', hid', hi⟩ := ih l hl hd (hid ▸ hne)
      exact ⟨n, e', i, hn.trans hl.le, he', hid'.trans hid, hi⟩

variable (hs : a.Sound m.envelopes)
include hs

theorem exists_holder (he : m.entries[k]? = some e) (hne : e.envelope.messageId ≠ .empty) :
    ∃ (l : Nat) (e' : Entry) (i : Index), l ≤ k ∧ m.entries[l]? = some e' ∧
      e'.envelope.messageId = e.envelope.messageId ∧
      a.find? e.envelope.messageId = some i ∧ a.message? i = some (.slot l) := by
  obtain ⟨l, e', i, hl, he', hid, hi⟩ := h.exists_bound he hne
  have hfind := hs.find?_of_thread he' hi (hid ▸ hne)
  rw [hid] at hfind
  exact ⟨l, e', i, hl, he', hid, hfind, (hs.holds_of_thread he' hi).1⟩

theorem holds_first (he : m.entries[k]? = some e) (hne : e.envelope.messageId ≠ .empty)
    (hfirst : ∀ (l : Nat) (e' : Entry), m.entries[l]? = some e' →
      e'.envelope.messageId = e.envelope.messageId → k ≤ l) :
    ∃ i, a.find? e.envelope.messageId = some i ∧ a.message? i = some (.slot k) := by
  obtain ⟨l, e', i, hl, he', hid, hi, hm⟩ := h.exists_holder hs he hne
  have hkl : l = k := le_antisymm hl (hfirst l e' he' hid)
  exact ⟨i, hi, hkl ▸ hm⟩

theorem thread_eq_none_iff (he : m.entries[k]? = some e) :
    e.envelope.thread = none ↔ m.Repeats k e := by
  refine ⟨h.unbound he, fun ⟨_, hne, n, d, hn, hd, hid⟩ => ?_⟩
  cases ht : e.envelope.thread with
  | none => rfl
  | some i =>
    obtain ⟨l, e', j, hl, he', hid', hfind, hj⟩ := h.exists_holder hs hd (hid ▸ hne)
    rw [hid] at hfind
    cases hfind.symm.trans (hs.find?_of_thread he ht hne)
    have hslot := hj.symm.trans (hs.holds_of_thread he ht).1
    cases hslot
    omega

theorem isSome_find?_iff :
    (a.find? x).isSome ↔ x ≠ .empty ∧ ∃ e ∈ m.entries, e.Mentions x := by
  rw [Option.isSome_iff_exists]
  constructor
  · rintro ⟨i, hi⟩
    exact ⟨hs.ready.named.ne_empty hi, h.mentioned hi⟩
  · rintro ⟨hne, e, he, hid | ⟨hfiled, hx⟩⟩
    · obtain ⟨k, hk⟩ := Array.mem_iff_getElem?.1 he
      obtain ⟨_, _, i, _, _, _, hi, _⟩ := h.exists_holder hs hk (hid ▸ hne)
      exact ⟨i, hid ▸ hi⟩
    · exact Option.isSome_iff_exists.1 (h.referred he hfiled hx)

theorem message?_eq_none_iff (hx : a.find? x = some i) :
    a.message? i = none ↔ ∀ e ∈ m.entries, e.envelope.messageId ≠ x := by
  constructor
  · rintro hm e he rfl
    obtain ⟨k, hk⟩ := Array.mem_iff_getElem?.1 he
    obtain ⟨_, _, j, _, _, _, hj, hl⟩ := h.exists_holder hs hk (hs.ready.named.ne_empty hx)
    cases hx.symm.trans hj
    rw [hm] at hl
    cases hl
  · intro hnone
    by_contra hm
    obtain ⟨k, d, _, hd, hid⟩ := hs.exists_of_held hx hm
    rw [m.getElem?_envelopes] at hd
    obtain ⟨e, he, rfl⟩ := Option.map_eq_some_iff.1 hd
    exact hnone e (Array.mem_iff_getElem?.2 ⟨k, he⟩) hid

theorem indices_perm : a.indices.Perm (a.ids.map Prod.snd ++ m.nameless) := by
  have hnamed := hs.ready.named
  refine (List.perm_ext_iff_of_nodup a.nodup_indices ?_).2 fun i => ?_
  · refine List.nodup_append'.2 ⟨hnamed.slots, hs.nodup_nameless, fun i hi hi' => ?_⟩
    obtain ⟨x, hx⟩ := hnamed.mem_slots_iff.1 hi
    obtain ⟨k, e, hk, hid⟩ := hs.mem_nameless.1 hi'
    obtain ⟨rfl, hne⟩ := (hs.owned hk x).1 hx
    exact hne hid
  · rw [List.mem_append, hnamed.mem_slots_iff, hs.mem_nameless]
    constructor
    · intro hi
      cases hm : a.message? i with
      | none => exact .inl (h.awaited i hi hm)
      | some m =>
        obtain ⟨k, e, _, hk⟩ := hs.holds_of_message? hm
        by_cases hid : e.messageId = .empty
        · exact .inr ⟨k, e, hk, hid⟩
        · exact .inl ⟨_, (hs.owned hk _).2 ⟨rfl, hid⟩⟩
    · rintro (⟨x, hx⟩ | ⟨k, e, hk, _⟩)
      · exact hnamed.mem_of_find? hx
      · exact mem_indices_of_message? hk.1

theorem size_eq : a.size = a.ids.length + m.envelopes.toList.countP (·.messageId = .empty) := by
  have hbound : ∀ e ∈ m.entries.toList.filter (·.envelope.messageId = .empty),
      (e.envelope.thread).isSome := fun e he => by
    simp only [List.mem_filter, Array.mem_toList_iff, decide_eq_true_eq] at he
    obtain ⟨k, hk⟩ := Array.mem_iff_getElem?.1 he.1
    rw [Option.isSome_iff_ne_none]
    exact fun hnone => (h.unbound hk hnone).2.1 he.2
  rw [← a.length_indices, (h.indices_perm hs).length_eq, List.length_append, List.length_map,
    Mailbox.nameless, List.length_filterMap_eq_countP, List.countP_eq_length.2 hbound,
    ← List.countP_eq_length_filter]
  simp [Mailbox.envelopes, List.countP_map, Function.comp_def]

end Arena.Registered

end MailThread
