import MailThread.Proofs.Arena.Growth
import MailThread.Proofs.Build.Run
import Mathlib

namespace MailThread

namespace Assembly

variable {s t u : Assembly} {e : Envelope} {es : List Envelope} {isCopy : Bool}
  {parentId : Option Text} {i : Index} {above : Option Index}
  {step : Assembly → Envelope → Assembly → Prop}

theorem Takes.arena_grows (ht : s.Takes t e isCopy parentId i above) (h : s.Sound) :
    s.arena.GrowsInto t.arena :=
  ht.admits.grows h (ht.admits_envelopes.unheld ht.waiting)

theorem Received.arena_grows (h : s.Sound) (hr : s.Received e t) : s.arena.GrowsInto t.arena := by
  cases hr with
  | duplicate _ _ harena =>
    rw [harena]
    exact .refl h.linked
  | taken ht => exact ht.arena_grows h

theorem Merged.arena_grows (h : s.Sound) (hm : s.Merged e t) : s.arena.GrowsInto t.arena := by
  cases hm with
  | ignored _ harena =>
    rw [harena]
    exact .refl h.linked
  | duplicate _ _ harena =>
    rw [harena]
    exact .refl h.linked
  | taken ht => exact ht.arena_grows h

theorem Run.arena_grows (hr : Run step s es t) (h : s.Sound)
    (hsound : ∀ {s e t}, s.Sound → step s e t → t.Sound)
    (hstep : ∀ {s e t}, s.Sound → step s e t → s.arena.GrowsInto t.arena) :
    s.arena.GrowsInto t.arena := by
  have hkept : t.Sound ∧ s.arena.GrowsInto t.arena :=
    hr.preserves (P := fun u => u.Sound ∧ s.arena.GrowsInto u.arena)
      (fun hu hs => ⟨hsound hu.1 hs, hu.2.trans (hstep hu.1 hs)⟩) ⟨h, .refl h.linked⟩
  exact hkept.2

end Assembly

namespace Build

open Assembly Assembling

variable {o : BuildOptions} {m m' : Mailbox} {sent sent' : SentFolder} {b b' : Build}
  {r r' s s' : Assembly} {xs ys ss ts : List Envelope}

theorem Made.grows (h : Made o m sent b r s) (h' : Made o m' sent' b' r' s')
    (hs : s.arena.GrowsInto s'.arena) : b.forest.arena.GrowsInto b'.forest.arena :=
  (h.arena.symm.grows h.forest_sound.arena.linked).trans
    (hs.trans (h'.arena.grows h'.sound.linked))

/-- The mailbox goes on. -/
theorem Made.grows_received (h : Made o (.ofEnvelopes xs) .absent b r s)
    (h' : Made o (.ofEnvelopes (xs ++ ys)) .absent b' r' s') :
    b.forest.arena.GrowsInto b'.forest.arena := by
  refine h.grows h' ?_
  have hx := h.passes.receives
  have hxy := h'.passes.receives
  rw [Mailbox.envelopes_ofEnvelopes] at hx hxy
  rw [run_forM_append ys hx] at hxy
  obtain ⟨t, ht, hrun⟩ := run_receiveAll ys h.passes.received_sound
  cases ht.symm.trans hxy
  rw [h.eq_of_absent rfl, h'.eq_of_absent rfl]
  exact hrun.arena_grows h.passes.received_sound Received.sound Received.arena_grows

/-- The sent folder goes on. -/
theorem Made.grows_merged (h : Made o m (.folder ss) b r s)
    (h' : Made o m (.folder (ss ++ ts)) b' r' s') :
    b.forest.arena.GrowsInto b'.forest.arena := by
  refine h.grows h' ?_
  cases h.passes.receives.symm.trans h'.passes.receives
  have hs := h.passes.joins
  have hst := h'.passes.joins
  unfold offered at hs hst
  by_cases hmerge : o.mergeSent = true
  · rw [if_pos hmerge] at hs hst
    replace hst := (run_forM_append ts hs).symm.trans hst
    obtain ⟨t, ht, hrun⟩ := run_mergeFolder ts h.sound
    cases ht.symm.trans hst
    exact hrun.arena_grows h.sound Merged.sound Merged.arena_grows
  · rw [if_neg hmerge] at hs hst
    cases hs.symm.trans hst
    exact .refl h.sound.linked

theorem Made.grows_absent (h : Made o m .absent b r s) (h' : Made o m sent b' r' s') :
    b.forest.arena.GrowsInto b'.forest.arena := by
  refine h.grows h' ?_
  rw [h.eq_of_absent rfl]
  cases h.passes.receives.symm.trans h'.passes.receives
  exact h'.passes.merged.arena_grows h.passes.received_sound Merged.sound Merged.arena_grows

/-- A build with more messages behind those of the mailbox, with a sent folder, or with more messages
behind those of the sent folder, has the containers of the build without them. What these hold, their
parents and what their ids name are still the same, the children have only become more at the end, and
no date is earlier. -/
theorem run_grows (o : BuildOptions) (xs ys ss ts : List Envelope) :
    ∃ b c d e, run o (.ofEnvelopes xs) .absent = .ok b ∧
      run o (.ofEnvelopes (xs ++ ys)) .absent = .ok c ∧
      run o (.ofEnvelopes xs) (.folder ss) = .ok d ∧
      run o (.ofEnvelopes xs) (.folder (ss ++ ts)) = .ok e ∧
      b.forest.arena.GrowsInto c.forest.arena ∧ b.forest.arena.GrowsInto d.forest.arena ∧
      d.forest.arena.GrowsInto e.forest.arena := by
  obtain ⟨b, _, _, hb, hmade⟩ := run_eq_ok o (.ofEnvelopes xs) .absent nofun
  obtain ⟨c, _, _, hc, hlonger⟩ := run_eq_ok o (.ofEnvelopes (xs ++ ys)) .absent nofun
  obtain ⟨d, _, _, hd, hsent⟩ := run_eq_ok o (.ofEnvelopes xs) (.folder ss) nofun
  obtain ⟨e, _, _, he, hmore⟩ := run_eq_ok o (.ofEnvelopes xs) (.folder (ss ++ ts)) nofun
  exact ⟨b, c, d, e, hb, hc, hd, he, hmade.grows_received hlonger, hmade.grows_absent hsent,
    hsent.grows_merged hmore⟩

end Build

end MailThread
