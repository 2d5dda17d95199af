import MailThread.Proofs.Assembly.Copies
import MailThread.Proofs.Assembly.Run

namespace MailThread

/-- Every message is filed by its parent reference. A link that was refused leaves the container of
the reference below the message. -/
structure Arena.Filed (a : Arena) (es : Array Envelope) : Prop where
  free : ∀ {i k e}, a.Holds es i k e → e.parentId? = none → a.parent? i = none
  under : ∀ {i k e x}, a.Holds es i k e → e.parentId? = some x →
    ∃ p, a.find? x = some p ∧ (a.parent? i = some p ∨ (a.parent? i = none ∧ a.Below p i))
  unbound : ∀ {k : Nat} {e : Envelope}, es[k]? = some e → e.thread = none →
    e.messageId ≠ .empty ∧ ∃ (l : Nat) (e' : Envelope), l < k ∧ es[l]? = some e' ∧
      e'.messageId = e.messageId

namespace Mailbox

/-- The envelopes of a mailbox without their back-references, each with the mark of a copy. -/
def contents (m : Mailbox) : List (Envelope × Bool) :=
  m.entries.toList.map fun e => (e.envelope.untied, e.isCopy)

theorem contents_push (m : Mailbox) (e : Entry) :
    (m.push e).contents = m.contents ++ [(e.envelope.untied, e.isCopy)] := by
  simp [contents, push]

theorem map_fst_contents (m : Mailbox) :
    m.contents.map Prod.fst = m.envelopes.toList.map Envelope.untied := by
  simp [contents, envelopes]

theorem withoutCopies_ofEnvelopes (es : List Envelope) :
    (ofEnvelopes es).withoutCopies = ofEnvelopes es := by
  simp [withoutCopies_eq, ofEnvelopes, List.filter_map, Function.comp_def]

theorem envelopes_ofEnvelopes (es : List Envelope) :
    (ofEnvelopes es).withoutCopies.envelopes = es.toArray := by
  rw [withoutCopies_ofEnvelopes]
  simp [ofEnvelopes, envelopes, Function.comp_def]

end Mailbox

namespace Assembly

variable {s t : Assembly} {e : Envelope} {es : List Envelope} {i : Index} {k : Nat}

def Filed (s : Assembly) : Prop := s.arena.Filed s.envelopes

theorem filed_start : Filed {} := by
  have he : ({} : Assembly).envelopes = #[] := by simp [envelopes, Mailbox.envelopes]
  unfold Filed
  rw [he]
  refine ⟨?_, ?_, ?_⟩
  · rintro i k e ⟨_, hk⟩
    simp at hk
  · rintro i k e x ⟨_, hk⟩
    simp at hk
  · intro k e hk
    simp at hk

theorem Takes.filed {above : Option Index} (h : s.Sound) (hf : s.Filed)
    (ht : s.Takes t e false e.parentId? i above) : t.Filed := by
  have hs := ht.admits_envelopes
  have hi := hs.unheld ht.waiting
  have hfree : s.arena.parent? i = none := h.ready.topmost i hi
  have hbelow : ∀ {x y}, s.arena.Below x y → t.arena.Below x y := fun hxy =>
    (hs.below_iff hfree).2 (.inl hxy)
  have hold : ∀ {j k e'}, s.arena.Holds s.envelopes j k e' →
      t.arena.parent? j = s.arena.parent? j := by
    rintro j k e' hj
    rw [hs.parent?, if_neg]
    rintro rfl
    rw [hj.1] at hi
    cases hi
  unfold Filed
  rw [ht.envelopes]
  refine ⟨?_, ?_, ?_⟩
  · intro j k e' hj hp
    rcases (hs.holds_iff h hi).1 hj with hj | ⟨rfl, rfl, rfl⟩
    · rw [hold hj]
      exact hf.free hj hp
    · rw [hs.parent?, if_pos rfl]
      exact hs.free hp
  · intro j k e' x hj hp
    rcases (hs.holds_iff h hi).1 hj with hj | ⟨rfl, rfl, rfl⟩
    · -- a refusal stays justified, for no link is ever undone
      obtain ⟨p, hx, hplace⟩ := hf.under hj hp
      rw [hold hj]
      exact ⟨p, hs.keeps hx, hplace.imp_right (And.imp_right hbelow)⟩
    · obtain ⟨p, hx, hplace⟩ := hs.target hp
      rw [hs.parent?, if_pos rfl]
      refine ⟨p, hx, ?_⟩
      rcases hplace with ⟨hpj, rfl⟩ | ⟨_, rfl⟩
      · exact .inr ⟨rfl, hbelow hpj⟩
      · exact .inl rfl
  · intro k e' hk hnone
    rw [Array.getElem?_push] at hk
    split at hk
    next =>
      cases hk
      cases hnone
    next =>
      obtain ⟨hne, l, e₁, hl, hl', hid⟩ := hf.unbound hk hnone
      refine ⟨hne, l, e₁, hl, ?_, hid⟩
      rw [Array.getElem?_push, if_neg, hl']
      obtain ⟨hlt, _⟩ := Array.getElem?_eq_some_iff.1 hl'
      omega

theorem Received.filed (h : s.Sound) (hf : s.Filed) (hr : s.Received e t) : t.Filed := by
  cases hr with
  | taken ht => exact ht.filed h hf
  | @duplicate i hnamed hheld harena hmailbox =>
    have hes : t.envelopes = s.envelopes.push e.untied := by
      rw [envelopes, hmailbox, Mailbox.envelopes_push]
      rfl
    unfold Filed
    rw [hes, harena]
    refine ⟨fun hj => hf.free (h.holds_push.1 hj), fun hj => hf.under (h.holds_push.1 hj),
      fun {k e'} hk hnone => ?_⟩
    rw [Array.getElem?_push] at hk
    have hpast : ∀ {l e₁}, s.envelopes[l]? = some e₁ → l < s.envelopes.size ∧
        (s.envelopes.push e.untied)[l]? = some e₁ := fun {l e₁} hl => by
      obtain ⟨hlt, _⟩ := Array.getElem?_eq_some_iff.1 hl
      exact ⟨hlt, by rw [Array.getElem?_push, if_neg (by omega), hl]⟩
    split at hk
    next hksize =>
      -- the envelope that comes in: the container of its id holds an earlier one
      cases hk
      obtain ⟨m, hm⟩ := Option.ne_none_iff_exists'.1 hheld
      obtain ⟨l, e₁, _, hl⟩ := h.holds_of_message? hm
      obtain ⟨hid, _⟩ := (h.owned hl _).1 hnamed.2
      obtain ⟨hlt, hl'⟩ := hpast hl.2
      exact ⟨hnamed.1, l, e₁, by omega, hl', hid.symm⟩
    next =>
      obtain ⟨hne, l, e₁, hl, hl', hid⟩ := hf.unbound hk hnone
      exact ⟨hne, l, e₁, hl, (hpast hl').2, hid⟩

theorem Takes.contents {isCopy : Bool} {parentId : Option Text} {above : Option Index}
    (h : s.Takes t e isCopy parentId i above) :
    t.mailbox.contents = s.mailbox.contents ++ [(e.untied, isCopy)] := by
  rw [h.mailbox, Mailbox.contents_push]
  rfl

theorem Received.contents (h : s.Received e t) :
    t.mailbox.contents = s.mailbox.contents ++ [(e.untied, false)] := by
  cases h with
  | duplicate _ _ _ hmailbox =>
    rw [hmailbox, Mailbox.contents_push]
    rfl
  | taken ht => exact ht.contents

theorem Run.filed (hr : Run Received s es t) (h : s.Sound) (hf : s.Filed) :
    t.Sound ∧ t.Filed := by
  refine hr.preserves (P := fun s => s.Sound ∧ s.Filed) ?_ ⟨h, hf⟩
  rintro s e t ⟨h, hf⟩ hr
  exact ⟨hr.sound h, hr.filed h hf⟩

theorem Run.contents (hr : Run Received s es t) :
    t.mailbox.contents = s.mailbox.contents ++ es.map fun e => (e.untied, false) := by
  induction hr with
  | stop => simp
  | next hs _ ih => rw [ih, hs.contents, List.append_assoc, List.singleton_append, List.map_cons]

theorem Run.sent_eq (hr : Run Received s es t) : t.sent = s.sent := by
  refine hr.preserves (P := fun u => u.sent = s.sent) (fun hu hr => ?_) rfl
  cases hr with
  | duplicate _ _ _ _ _ hsent => exact hsent.trans hu
  | taken _ _ hsent => exact hsent.trans hu

theorem Run.map_untied (hr : Run Received s es t) :
    t.envelopes.toList.map Envelope.untied =
      s.envelopes.toList.map Envelope.untied ++ es.map Envelope.untied := by
  rw [envelopes, envelopes, ← Mailbox.map_fst_contents, ← Mailbox.map_fst_contents, hr.contents]
  simp

end Assembly

end MailThread
