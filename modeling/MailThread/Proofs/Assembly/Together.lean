import MailThread.Proofs.Assembly.Inbox

namespace MailThread

open Relation

/-- The message of the first envelope replies to that of the second one, or both reply to the same
message. -/
def Adjacent (es : Array Envelope) (k l : Nat) : Prop :=
  ∃ e e' x, es[k]? = some e ∧ es[l]? = some e' ∧ e.parentId? = some x ∧
    (e'.messageId = x ∨ e'.parentId? = some x)

namespace Arena

variable {a : Arena} {es : Array Envelope} {c i j p r : Index} {k l : Nat} {e e' : Envelope}

/-- The message in `i` names the container `p` as that of its parent. -/
def Refers (a : Arena) (es : Array Envelope) (i p : Index) : Prop :=
  ∃ k e x, a.Holds es i k e ∧ e.parentId? = some x ∧ a.find? x = some p

variable (h : a.Sound es) (hf : a.Filed es)
include h hf

theorem Filed.refers_of_parent (hp : a.parent? i = some p) : a.Refers es i p := by
  obtain ⟨k, e, hk⟩ := h.holds_of_parent hp
  cases hx : e.parentId? with
  | none =>
    rw [hf.free hk hx] at hp
    cases hp
  | some x =>
    obtain ⟨q, hq, hplace⟩ := hf.under hk hx
    rcases hplace with hparent | ⟨hparent, _⟩
    · cases hparent.symm.trans hp
      exact ⟨k, e, x, hk, hx, hq⟩
    · rw [hparent] at hp
      cases hp

omit h in
theorem Filed.together_of_refers (hr : a.Refers es i p) : a.Together i p := by
  obtain ⟨k, e, x, hk, hx, hp⟩ := hr
  obtain ⟨q, hq, hplace⟩ := hf.under hk hx
  cases hp.symm.trans hq
  rcases hplace with hparent | ⟨_, hbelow⟩
  · exact .of_below (.of_parent hparent)
  · exact (Together.of_below hbelow).symm

theorem Filed.together_iff : a.Together i j ↔ EqvGen (a.Refers es) i j := by
  constructor
  · have hup : ∀ {i r}, a.Below i r → EqvGen (a.Refers es) i r := fun hb =>
      EqvGen.mono (fun _ _ hp => hf.refers_of_parent h hp) _ _
        (EqvGen.reflTransGen_le_eqvGen _ _ _ hb)
    rintro ⟨r, hi, hj⟩
    exact (hup hi).trans _ _ _ ((hup hj).symm)
  · intro hij
    induction hij with
    | rel i p hr => exact hf.together_of_refers hr
    | refl i => exact .of_below (.refl a i)
    | symm i j _ ih => exact ih.symm
    | trans i j p _ _ ih ih' => exact ih.trans ih'

omit h hf in
/-- The envelope at position `k` is held by the container `c` or names it as that of its parent. -/
def Touches (a : Arena) (es : Array Envelope) (c : Index) (k : Nat) : Prop :=
  ∃ e, es[k]? = some e ∧
    (a.message? c = some (.slot k) ∨ ∃ x, e.parentId? = some x ∧ a.find? x = some c)

omit hf in
theorem Sound.eqvGen_of_touches (hk : a.Touches es c k) (hl : a.Touches es c l) :
    EqvGen (Adjacent es) k l := by
  have names : ∀ {k l e e' x}, es[k]? = some e → es[l]? = some e' → e.parentId? = some x →
      a.find? x = some c → a.message? c = some (.slot l) → EqvGen (Adjacent es) k l := by
    intro k l e e' x he he' hx hc hm
    exact .rel k l ⟨e, e', x, he, he', hx, .inl ((h.owned ⟨hm, he'⟩ x).1 hc).1.symm⟩
  obtain ⟨e, he, hk⟩ := hk
  obtain ⟨e', he', hl⟩ := hl
  -- each of the two is held by `c` or names it
  rcases hk with hk | ⟨x, hx, hxc⟩ <;> rcases hl with hl | ⟨y, hy, hyc⟩
  · cases hk.symm.trans hl
    exact .refl k
  · exact (names he' he hy hyc hk).symm
  · exact names he he' hx hxc hl
  · obtain rfl := h.ready.named.find?_injective hxc hyc
    exact .rel k l ⟨e, e', x, he, he', hx, .inr hy⟩

theorem Filed.exists_touches (hc : c ∈ a.indices) : ∃ k, a.Touches es c k := by
  cases hm : a.message? c with
  | some m =>
    obtain ⟨k, e, rfl, hk⟩ := h.holds_of_message? hm
    exact ⟨k, e, hk.2, .inl hm⟩
  | none =>
    obtain ⟨i, rest, hi⟩ := List.exists_cons_of_ne_nil (h.awaited c hc hm)
    have hparent : a.parent? i = some c := h.linked.mem_kids.1 (hi ▸ List.mem_cons_self)
    obtain ⟨k, e, x, hk, hx, hxc⟩ := hf.refers_of_parent h hparent
    exact ⟨k, e, hk.2, .inr ⟨x, hx, hxc⟩⟩

theorem Filed.eqvGen_of_below (hb : a.Below c r) (hk : a.Touches es c k) (hl : a.Touches es r l) :
    EqvGen (Adjacent es) k l := by
  induction hb using ReflTransGen.head_induction_on generalizing k with
  | refl => exact h.eqvGen_of_touches hk hl
  | @head c p hp _ ih =>
    obtain ⟨n, e, x, hn, hx, hxp⟩ := hf.refers_of_parent h hp
    exact (h.eqvGen_of_touches hk ⟨e, hn.2, .inl hn.1⟩).trans _ _ _
      (ih ⟨e, hn.2, .inr ⟨x, hx, hxp⟩⟩)

theorem Filed.together_of_adjacent (hi : a.Holds es i k e) (hj : a.Holds es j l e')
    (hkl : Adjacent es k l) : a.Together i j := by
  obtain ⟨e₁, e₂, x, h₁, h₂, hx, hside⟩ := hkl
  cases hi.2.symm.trans h₁
  cases hj.2.symm.trans h₂
  obtain ⟨p, hp, _⟩ := hf.under hi hx
  have hip := hf.together_of_refers ⟨k, e, x, hi, hx, hp⟩
  rcases hside with hid | hy
  · have hjx := (h.owned hj x).2 ⟨hid.symm, (Envelope.parentId?_ne hx).1⟩
    cases hp.symm.trans hjx
    exact hip
  · exact hip.trans (hf.together_of_refers ⟨l, e', x, hj, hy, hp⟩).symm

/-- Messages that are joined are the same or stand in one tree. -/
theorem Filed.holders_of_eqvGen
    (hall : ∀ k e, es[k]? = some e → ∃ i, a.message? i = some (.slot k))
    (hkl : EqvGen (Adjacent es) k l) :
    k = l ∨ ∃ i j, a.message? i = some (.slot k) ∧ a.message? j = some (.slot l) ∧
      a.Together i j := by
  induction hkl with
  | rel k l hkl =>
    obtain ⟨e, e', x, he, he', _⟩ := id hkl
    obtain ⟨i, hi⟩ := hall k e he
    obtain ⟨j, hj⟩ := hall l e' he'
    exact .inr ⟨i, j, hi, hj, hf.together_of_adjacent h ⟨hi, he⟩ ⟨hj, he'⟩ hkl⟩
  | refl k => exact .inl rfl
  | symm k l _ ih =>
    exact ih.imp Eq.symm fun ⟨i, j, hi, hj, ht⟩ => ⟨j, i, hj, hi, ht.symm⟩
  | trans k l n _ _ ih ih' =>
    rcases ih with rfl | ⟨i, j, hi, hj, ht⟩
    · exact ih'
    · rcases ih' with rfl | ⟨j', p, hj', hp, ht'⟩
      · exact .inr ⟨i, j, hi, hj, ht⟩
      · cases h.holder_unique hj hj'
        exact .inr ⟨i, p, hi, hp, ht.trans ht'⟩

/-- If every envelope has a container, those whose messages are joined stand in one tree, and no
others. -/
theorem Filed.together_iff_eqvGen
    (hall : ∀ k e, es[k]? = some e → ∃ i, a.message? i = some (.slot k))
    (hi : a.Holds es i k e) (hj : a.Holds es j l e') :
    a.Together i j ↔ EqvGen (Adjacent es) k l := by
  constructor
  · rintro ⟨r, hir, hjr⟩
    have hr := h.rooted.mem_of_below (mem_indices_of_message? hi.1) hir
    obtain ⟨n, hn⟩ := hf.exists_touches h hr
    exact (hf.eqvGen_of_below h hir ⟨e, hi.2, .inl hi.1⟩ hn).trans _ _ _
      (hf.eqvGen_of_below h hjr ⟨e', hj.2, .inl hj.1⟩ hn).symm
  · intro hkl
    rcases hf.holders_of_eqvGen h hall hkl with rfl | ⟨i', j', hi', hj', ht⟩
    · rw [h.holder_unique hi.1 hj.1]
      exact .of_below (.refl a j)
    · cases h.holder_unique hi.1 hi'
      cases h.holder_unique hj.1 hj'
      exact ht

end Arena

end MailThread
