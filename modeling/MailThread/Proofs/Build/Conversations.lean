import MailThread.Proofs.Build.Run
import MailThread.Proofs.Forest.Reorder

namespace MailThread

open Arena Relation

def Mailbox.DistinctIds (m : Mailbox) : Prop :=
  m.messageIds.Pairwise fun x y => x ≠ .empty → x ≠ y

instance (m : Mailbox) : Decidable m.DistinctIds :=
  inferInstanceAs (Decidable (m.messageIds.Pairwise fun x y => x ≠ .empty → x ≠ y))

theorem Mailbox.DistinctIds.envelopes {m : Mailbox} (h : m.DistinctIds) :
    IdsDistinct m.envelopes := by
  have hids : ∀ {n : Nat} {e : Envelope}, m.envelopes[n]? = some e →
      m.messageIds[n]? = some e.messageId := by
    intro n e hn
    rw [Mailbox.envelopes, Array.getElem?_map, Option.map_eq_some_iff] at hn
    obtain ⟨entry, hentry, rfl⟩ := hn
    simp [Mailbox.messageIds, hentry]
  intro k l e e' hk hl hid hne
  obtain ⟨hklt, hk⟩ := List.getElem?_eq_some_iff.1 (hids hk)
  obtain ⟨hllt, hl⟩ := List.getElem?_eq_some_iff.1 (hids hl)
  have hpair := List.pairwise_iff_getElem.1 h
  by_contra hkl
  rcases Nat.lt_or_gt_of_ne hkl with hlt | hlt
  · exact hpair k l hklt hllt hlt (hk ▸ hne) (by rw [hk, hl, hid])
  · exact hpair l k hllt hklt hlt (by rw [hl, ← hid]; exact hne) (by rw [hk, hl, hid])

namespace Build

variable {o : BuildOptions} {m : Mailbox} {b : Build} {r s : Assembly}

theorem Made.reordered (h : Made o m .absent b r s) :
    Reordered (Equiv.refl Nat) m.withoutCopies.envelopes b.forest.envelopes := fun k => by
  have hk := congrArg (·[k]?) (h.map_untied rfl)
  simpa using hk

theorem Made.settled (h : Made o m .absent b r s) (hids : IdsDistinct m.withoutCopies.envelopes) :
    b.forest.Settled where
  sound := h.forest_sound
  harvested := h.harvested
  filed := h.filed rfl
  held := fun k e hk => by
    cases ht : e.thread with
    | some i => exact ⟨i, (h.forest_sound.arena.pointed hk).1 ht⟩
    | none =>
      -- an envelope without a container would have the id of an earlier one
      obtain ⟨hne, l, e', hlt, hl, hid⟩ := (h.filed rfl).unbound hk ht
      have hkl := h.reordered.idsDistinct hids k l e e' hk hl hid.symm hne
      omega

end Build

end MailThread
