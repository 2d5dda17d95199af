import MailThread.Proofs.Assembly.Step
import MailThread.Proofs.Arena.Sound

namespace MailThread

namespace Mailbox

@[simp] theorem envelopes_push (m : Mailbox) (e : Entry) :
    (m.push e).envelopes = m.envelopes.push e.envelope := by
  simp [push, envelopes]

theorem size_envelopes (m : Mailbox) : m.envelopes.size = m.size := by simp [envelopes, size]

end Mailbox

def Envelope.untied (e : Envelope) : Envelope := { e with thread := none }

theorem Envelope.parentId?_eq {d e : Envelope} (h : d.untied = e.untied) :
    d.parentId? = e.parentId? := by
  change d.untied.parentId? = e.untied.parentId?
  rw [h]

theorem Envelope.messageId_eq {d e : Envelope} (h : d.untied = e.untied) :
    d.messageId = e.messageId := by
  change d.untied.messageId = e.untied.messageId
  rw [h]

namespace Assembly

variable {s t u : Assembly} {e : Envelope} {es : List Envelope} {i : Index} {isCopy : Bool}
  {parentId : Option Text} {above : Option Index}
  {step : Assembly → Envelope → Assembly → Prop}

def envelopes (s : Assembly) : Array Envelope := s.mailbox.envelopes

def Sound (s : Assembly) : Prop := s.arena.Sound s.envelopes

/-- A run takes the envelopes one after the other. -/
inductive Run (step : Assembly → Envelope → Assembly → Prop) :
    Assembly → List Envelope → Assembly → Prop
  | stop (s : Assembly) : Run step s [] s
  | next {s t u : Assembly} {e : Envelope} {es : List Envelope} :
      step s e t → Run step t es u → Run step s (e :: es) u

theorem Run.preserves {P : Assembly → Prop} (hr : Run step s es t)
    (hstep : ∀ {s e t}, P s → step s e t → P t) (h : P s) : P t := by
  induction hr with
  | stop => exact h
  | next hs _ ih => exact ih (hstep h hs)

theorem sound_start : Sound {} := by
  have he : ({} : Assembly).envelopes = #[] := by simp [envelopes, Mailbox.envelopes]
  unfold Sound
  rw [he]
  exact Arena.sound_empty

theorem Takes.admits_envelopes (ht : s.Takes t e isCopy parentId i above) :
    s.arena.Admits t.arena e.messageId (.slot s.envelopes.size) e.date parentId i above := by
  rw [envelopes, Mailbox.size_envelopes]
  exact ht.admits

theorem Takes.envelopes (ht : s.Takes t e isCopy parentId i above) :
    t.envelopes = s.envelopes.push { e with thread := some i } := by
  rw [Assembly.envelopes, ht.mailbox, Mailbox.envelopes_push]
  rfl

theorem Takes.sound (ht : s.Takes t e isCopy parentId i above) (h : s.Sound) : t.Sound := by
  unfold Sound
  rw [ht.envelopes]
  exact Arena.Admits.sound (e := { e with thread := some i }) ht.admits_envelopes h ht.waiting rfl

theorem Received.sound (h : s.Sound) (hr : s.Received e t) : t.Sound := by
  cases hr with
  | duplicate _ _ harena hmailbox =>
    unfold Sound envelopes
    rw [harena, hmailbox, Mailbox.envelopes_push]
    exact Arena.Sound.push_unheld h rfl
  | taken ht => exact ht.sound h

theorem Merged.sound (h : s.Sound) (hm : s.Merged e t) : t.Sound := by
  cases hm with
  | ignored _ harena hmailbox =>
    unfold Sound envelopes
    rwa [harena, hmailbox]
  | duplicate _ _ harena hmailbox =>
    unfold Sound envelopes
    rwa [harena, hmailbox]
  | taken ht => exact ht.sound h

end Assembly

namespace Assembling

open Assembly

variable {s t : Assembly} {step : Assembly → Envelope → Assembly → Prop}

theorem run_forM_cons {f : Envelope → Assembling Unit} {e : Envelope} (es : List Envelope)
    (h : (f e).run s = .ok () t) : ((e :: es).forM f).run s = (es.forM f).run t := by
  rw [List.forM_eq_forM, List.forM_cons, run_bind_ok h]

theorem run_forM_append {f : Envelope → Assembling Unit} {xs : List Envelope} (ys : List Envelope)
    (hx : (xs.forM f).run s = .ok () t) : ((xs ++ ys).forM f).run s = (ys.forM f).run t := by
  rw [List.forM_eq_forM, List.forM_append]
  exact run_bind_ok hx

/-- A computation that steps through a list does so to its end. -/
theorem run_forM {f : Envelope → Assembling Unit} (es : List Envelope) (h : s.Sound)
    (hrun : ∀ {s}, s.Sound → ∀ e, ∃ t, (f e).run s = .ok () t ∧ step s e t)
    (hsound : ∀ {s e t}, s.Sound → step s e t → t.Sound) :
    ∃ t, (es.forM f).run s = .ok () t ∧ Run step s es t := by
  induction es generalizing s with
  | nil => exact ⟨s, rfl, .stop s⟩
  | cons e es ih =>
    obtain ⟨t, hf, hs⟩ := hrun h e
    obtain ⟨u, hrest, hr⟩ := ih (hsound h hs)
    exact ⟨u, (run_forM_cons es hf).trans hrest, .next hs hr⟩

theorem run_receiveAll (es : List Envelope) (h : s.Sound) :
    ∃ t, (es.forM receive).run s = .ok () t ∧ Run Received s es t :=
  run_forM es h (fun h e => run_receive h.ready e) Received.sound

theorem run_mergeFolder (es : List Envelope) (h : s.Sound) :
    ∃ t, (mergeFolder es).run s = .ok () t ∧ Run Merged s es t :=
  run_forM es h (fun h e => run_mergeSent h.ready e) Merged.sound

end Assembling

end MailThread
