import MailThread.Proofs.Forest.Conversation
import Mathlib.Data.List.Perm.Basic
import Mathlib.Logic.Equiv.Defs

namespace MailThread

open Arena Relation

/-- `es'` holds the envelopes of `es`, back-references aside, and the one at position `k` stands at
position `σ k` there. -/
def Reordered (σ : Equiv.Perm Nat) (es es' : Array Envelope) : Prop :=
  ∀ k : Nat, es'[σ k]?.map Envelope.untied = es[k]?.map Envelope.untied

def IdsDistinct (es : Array Envelope) : Prop :=
  ∀ (k l : Nat) (e e' : Envelope), es[k]? = some e → es[l]? = some e' →
    e.messageId = e'.messageId → e.messageId ≠ .empty → k = l

namespace Reordered

variable {σ : Equiv.Perm Nat} {es es' : Array Envelope} {k l : Nat} {e : Envelope}

theorem symm (h : Reordered σ es es') : Reordered σ.symm es' es := fun k => by
  rw [← h, Equiv.apply_symm_apply]

variable (h : Reordered σ es es')
include h

theorem exists_untied (he : es[k]? = some e) :
    ∃ e', es'[σ k]? = some e' ∧ e'.untied = e.untied := by
  have hk := h k
  rw [he] at hk
  exact Option.map_eq_some_iff.1 hk

theorem exists_mem {p : Envelope → Prop} (hp : ∀ e e' : Envelope, e.untied = e'.untied → p e → p e')
    (he : ∃ e ∈ es, p e) : ∃ e ∈ es', p e := by
  obtain ⟨e, he, hpe⟩ := he
  obtain ⟨k, hk⟩ := Array.mem_iff_getElem?.1 he
  obtain ⟨d, hd, hu⟩ := h.exists_untied hk
  exact ⟨d, Array.mem_iff_getElem?.2 ⟨_, hd⟩, hp e d hu.symm hpe⟩

theorem adjacent (hkl : Adjacent es k l) : Adjacent es' (σ k) (σ l) := by
  obtain ⟨e₁, e₂, x, h₁, h₂, hx, hside⟩ := hkl
  obtain ⟨d₁, hd₁, hu₁⟩ := h.exists_untied h₁
  obtain ⟨d₂, hd₂, hu₂⟩ := h.exists_untied h₂
  refine ⟨d₁, d₂, x, hd₁, hd₂, (Envelope.parentId?_eq hu₁).trans hx, ?_⟩
  rwa [Envelope.parentId?_eq hu₂, Envelope.messageId_eq hu₂]

theorem eqvGen (hkl : EqvGen (Adjacent es) k l) : EqvGen (Adjacent es') (σ k) (σ l) := by
  induction hkl with
  | rel k l hkl => exact .rel _ _ (h.adjacent hkl)
  | refl k => exact .refl _
  | symm k l _ ih => exact ih.symm
  | trans k l n _ _ ih ih' => exact ih.trans _ _ _ ih'

theorem image_eqvGen (k : Nat) :
    σ '' { l | EqvGen (Adjacent es) k l } = { l | EqvGen (Adjacent es') (σ k) l } := by
  ext l
  constructor
  · rintro ⟨n, hn, rfl⟩
    exact h.eqvGen hn
  · intro hl
    refine ⟨σ.symm l, ?_, σ.apply_symm_apply l⟩
    have hback := h.symm.eqvGen hl
    rwa [σ.symm_apply_apply] at hback

theorem idsDistinct (hids : IdsDistinct es) : IdsDistinct es' := by
  intro k l e e' hk hl hid hne
  obtain ⟨d, hd, hu⟩ := h.symm.exists_untied hk
  obtain ⟨d', hd', hu'⟩ := h.symm.exists_untied hl
  refine σ.symm.injective (hids _ _ d d' hd hd' ?_ ?_)
  · rw [Envelope.messageId_eq hu, Envelope.messageId_eq hu', hid]
  · rwa [Envelope.messageId_eq hu]

/-- What is told of single envelopes is the same in both orders. -/
theorem exists_image_iff {p : Envelope → Prop}
    (hp : ∀ e e' : Envelope, e.untied = e'.untied → p e → p e') (S : Set Nat) :
    (∃ k ∈ σ '' S, ∃ e, es'[k]? = some e ∧ p e) ↔ ∃ k ∈ S, ∃ e, es[k]? = some e ∧ p e := by
  constructor
  · rintro ⟨_, ⟨k, hk, rfl⟩, e, he, hpe⟩
    obtain ⟨d, hd, hu⟩ := h.symm.exists_untied he
    rw [σ.symm_apply_apply] at hd
    exact ⟨k, hk, d, hd, hp e d hu.symm hpe⟩
  · rintro ⟨k, hk, e, he, hpe⟩
    obtain ⟨d, hd, hu⟩ := h.exists_untied he
    exact ⟨σ k, ⟨k, hk, rfl⟩, d, hd, hp e d hu.symm hpe⟩

end Reordered

namespace Forest

variable {f f' : Forest} {σ : Equiv.Perm Nat} {r r' : Index}

variable (h : f.Settled) (h' : f'.Settled) (hσ : Reordered σ f.envelopes f'.envelopes)
include h h' hσ

theorem Settled.exists_root_image (hr : r ∈ f.roots) :
    ∃ r' ∈ f'.roots, f'.arena.members r' = σ '' f.arena.members r := by
  obtain ⟨k, hk⟩ := h.sound.members_nonempty (h.sound.roots r hr)
  obtain ⟨i, hi, hm⟩ := id hk
  obtain ⟨e, hholds⟩ := h.sound.arena.holds_of_slot hm
  obtain ⟨d, hd, _⟩ := hσ.exists_untied hholds.2
  obtain ⟨j, hj⟩ := h'.held _ d hd
  obtain ⟨r', hr', hk'⟩ := h'.sound.exists_root h'.harvested (mem_indices_of_message? hj) hj
  refine ⟨r', hr', ?_⟩
  rw [h'.members_eq hr' hk', h.members_eq hr hk, hσ.image_eqvGen]

/-- The roots of the two forests correspond to each other. -/
theorem Settled.roots_perm :
    ∃ ρ : Index → Index, f'.roots.Perm (f.roots.map ρ) ∧
      ∀ r ∈ f.roots, ρ r ∈ f'.roots ∧ f'.arena.members (ρ r) = σ '' f.arena.members r := by
  have hchoice : ∀ r, ∃ r', r ∈ f.roots →
      r' ∈ f'.roots ∧ f'.arena.members r' = σ '' f.arena.members r := fun r => by
    by_cases hr : r ∈ f.roots
    · obtain ⟨r', hr', hmembers⟩ := h.exists_root_image h' hσ hr
      exact ⟨r', fun _ => ⟨hr', hmembers⟩⟩
    · exact ⟨r, fun hr' => absurd hr' hr⟩
  choose ρ hρ using hchoice
  have hinj : ∀ r ∈ f.roots, ∀ q ∈ f.roots, ρ r = ρ q → r = q := by
    intro r hr q hq he
    have himage : σ '' f.arena.members r = σ '' f.arena.members q := by
      rw [← (hρ r hr).2, he, (hρ q hq).2]
    exact h.sound.root_eq_of_members_eq h.harvested hr hq (σ.injective.image_injective himage)
  refine ⟨ρ, ?_, hρ⟩
  -- neither list has a root twice, so that it is enough to compare their members
  refine (List.perm_ext_iff_of_nodup h'.harvested.nodup
    (h.harvested.nodup.map_on hinj)).2 fun r' => ?_
  rw [List.mem_map]
  constructor
  · intro hr'
    obtain ⟨r, hr, hmembers⟩ := h'.exists_root_image h hσ.symm hr'
    refine ⟨r, hr, h'.sound.root_eq_of_members_eq h'.harvested (hρ r hr).1 hr' ?_⟩
    rw [(hρ r hr).2, hmembers, Equiv.image_symm_image]
  · rintro ⟨r, hr, rfl⟩
    exact (hρ r hr).1

theorem Settled.partition_image : f'.partition = (fun S => σ '' S) '' f.partition := by
  rw [h.sound.partition_eq, h'.sound.partition_eq]
  ext S
  constructor
  · rintro ⟨r', hr', rfl⟩
    obtain ⟨r, hr, hmembers⟩ := h'.exists_root_image h hσ.symm hr'
    refine ⟨_, ⟨r, hr, rfl⟩, ?_⟩
    simp only [hmembers, Equiv.image_symm_image]
  · rintro ⟨_, ⟨r, hr, rfl⟩, rfl⟩
    obtain ⟨r', hr', hmembers⟩ := h.exists_root_image h' hσ hr
    exact ⟨r', hr', hmembers.symm⟩

omit h h' in
/-- Containers with the same messages below them have the same date. -/
theorem Sound.dateOf_eq (h : f.Sound) (h' : f'.Sound) (hr : r ∈ f.arena.indices)
    (hr' : r' ∈ f'.arena.indices) (hmembers : f'.arena.members r' = σ '' f.arena.members r) :
    f'.arena.dateOf r' = f.arena.dateOf r := by
  have hdates : { d | ∃ k ∈ f'.arena.members r', ∃ e, f'.envelopes[k]? = some e ∧ e.date = d } =
      { d | ∃ k ∈ f.arena.members r, ∃ e, f.envelopes[k]? = some e ∧ e.date = d } := by
    ext d
    rw [hmembers]
    exact hσ.exists_image_iff (p := fun e => e.date = d)
      (fun e e' he hd => (congrArg Envelope.date he).symm.trans hd) _
  have hlatest := h'.isGreatest_members hr'
  rw [hdates] at hlatest
  exact hlatest.unique (h.isGreatest_members hr)

/-- A conversation has the same date and size in both forests. -/
theorem Settled.summary?_eq (hr : r ∈ f.roots) (hr' : r' ∈ f'.roots)
    (hmembers : f'.arena.members r' = σ '' f.arena.members r) (term : Text) :
    f'.summary? term r' = f.summary? term r := by
  have hdate : f'.arena.dateOf r' = f.arena.dateOf r :=
    h.sound.dateOf_eq hσ h'.sound (h.sound.roots r hr) (h'.sound.roots r' hr') hmembers
  have hmeets : (∃ k ∈ f'.arena.members r', ∃ e, f'.envelopes[k]? = some e ∧
        Subject.meets e.subject term) ↔
      ∃ k ∈ f.arena.members r, ∃ e, f.envelopes[k]? = some e ∧ Subject.meets e.subject term := by
    rw [hmembers]
    exact hσ.exists_image_iff (p := fun e => Subject.meets e.subject term = true)
      (fun e e' he hm => (congrArg Envelope.subject he) ▸ hm) _
  have hcard : (f'.arena.members r').ncard = (f.arena.members r).ncard := by
    rw [hmembers, Set.ncard_image_of_injective _ σ.injective]
  unfold summary?
  rw [hdate, hcard]
  split
  next hm => rw [if_pos (hmeets.1 hm)]
  next hm => rw [if_neg fun hm' => hm (hmeets.2 hm')]

/-- Listings of the two forests tell the same dates and sizes, in whatever order. -/
theorem Settled.lines_perm (o : ListingStyle) :
    ∃ lines lines', f.conversationLines o = .ok lines ∧ f'.conversationLines o = .ok lines' ∧
      (lines.map fun l => (l.date, l.messageCount)).Perm
        (lines'.map fun l => (l.date, l.messageCount)) := by
  obtain ⟨lines, hlines, hperm⟩ := h.sound.conversationLines_perm o
  obtain ⟨lines', hlines', hperm'⟩ := h'.sound.conversationLines_perm o
  obtain ⟨ρ, hroots, hρ⟩ := h.roots_perm h' hσ
  refine ⟨lines, lines', hlines, hlines', hperm.trans (.trans ?_ hperm'.symm)⟩
  refine .trans ?_ (hroots.filterMap _).symm
  rw [List.filterMap_map]
  refine .of_eq (List.filterMap_congr fun r hr => ?_)
  exact (h.summary?_eq h' hσ hr (hρ r hr).1 (hρ r hr).2 o.filter).symm

end Forest

end MailThread
