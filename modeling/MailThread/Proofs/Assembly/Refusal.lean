import MailThread.Proofs.Assembly.Register
import MailThread.Proofs.Assembly.Together
import Mathlib.Logic.Relation

namespace MailThread

open Relation

def Entry.refusedIn (a : Arena) (e : Entry) : Bool :=
  !e.isCopy && e.envelope.parentId?.isSome &&
    match e.envelope.thread with
    | some i => (a.parent? i).isNone
    | none => false

namespace Arena

variable {a b : Arena} {m : Mailbox} {es : Array Envelope} {i j p : Index} {k : Nat} {e : Envelope}
  {x y z : Text}

theorem Redrawn.refusedIn_eq (h : a.Redrawn b) (e : Entry) : e.refusedIn b = e.refusedIn a := by
  unfold Entry.refusedIn
  simp only [h.sameLinks.parent?_eq]

def refusals (a : Arena) (m : Mailbox) : Nat := m.entries.toList.countP (·.refusedIn a)

theorem Redrawn.refusals_eq (h : a.Redrawn b) (m : Mailbox) : b.refusals m = a.refusals m :=
  List.countP_congr fun e _ => by rw [h.refusedIn_eq e]

def Cites (es : Array Envelope) (x y : Text) : Prop :=
  ∃ e ∈ es, e.messageId = x ∧ e.parentId? = some y

theorem Filed.cites_of_below (hf : a.Filed es) (h : a.Sound es) (hij : a.Below i j)
    (hx : a.find? x = some i) : ∃ y, a.find? y = some j ∧ ReflTransGen (Cites es) x y := by
  induction hij using ReflTransGen.head_induction_on generalizing x with
  | refl => exact ⟨x, hx, .refl⟩
  | @head i p hp _ ih =>
    obtain ⟨k, e, y, hk, hy, hpy⟩ := hf.refers_of_parent h hp
    obtain ⟨z, hz, hyz⟩ := ih hpy
    have hxe : x = e.messageId := ((h.owned hk x).1 hx).1
    exact ⟨z, hz, .head ⟨e, Array.mem_of_getElem? hk.2, hxe.symm, hy⟩ hyz⟩

theorem Filed.parent?_of_acyclic (hf : a.Filed es) (h : a.Sound es)
    (hacyclic : ∀ x, ¬ TransGen (Cites es) x x) (hk : a.Holds es i k e)
    (hx : e.parentId? = some x) : ∃ p, a.find? x = some p ∧ a.parent? i = some p := by
  obtain ⟨p, hp, hparent | ⟨_, hbelow⟩⟩ := hf.under hk hx
  · exact ⟨p, hp, hparent⟩
  · -- the container of the reference would lie below the message
    obtain ⟨y, hy, hxy⟩ := hf.cites_of_below h hbelow hp
    have hye : y = e.messageId := ((h.owned hk y).1 hy).1
    exact absurd (TransGen.head' ⟨e, Array.mem_of_getElem? hk.2, hye.symm, hx⟩ hxy) (hacyclic y)

end Arena

namespace Assembly

variable {s t : Assembly} {e : Envelope} {es : List Envelope} {i : Index} {isCopy : Bool}
  {parentId : Option Text} {above : Option Index}

/-- A message that comes in changes nothing about the links of others. -/
theorem Takes.refusals (ht : s.Takes t e isCopy parentId i above) (h : s.Sound) :
    t.arena.refusals t.mailbox = s.arena.refusals s.mailbox +
      if isCopy = false ∧ e.parentId?.isSome ∧ above = none then 1 else 0 := by
  have hs := ht.admits_envelopes
  have hi := hs.unheld ht.waiting
  have hold : ∀ d ∈ s.mailbox.entries.toList, d.refusedIn t.arena = d.refusedIn s.arena := by
    intro d hd
    obtain ⟨k, hk⟩ := Array.mem_iff_getElem?.1 (Array.mem_toList_iff.1 hd)
    unfold Entry.refusedIn
    cases hthread : d.envelope.thread with
    | none => rfl
    | some j =>
      have hne : j ≠ i := by
        rintro rfl
        rw [(Arena.Sound.holds_of_thread h hk hthread).1] at hi
        cases hi
      simp only [hs.parent?, if_neg hne]
  have hnew : (entryOf e (some i) isCopy).refusedIn t.arena =
      decide (isCopy = false ∧ e.parentId?.isSome ∧ above = none) := by
    have hparent : t.arena.parent? i = above := by rw [hs.parent?, if_pos rfl]
    have hreference : ({ e with thread := some i } : Envelope).parentId? = e.parentId? := rfl
    simp only [Entry.refusedIn, entryOf, hparent, hreference]
    cases isCopy <;> cases above <;> simp
  unfold Arena.refusals
  rw [ht.mailbox, Mailbox.push, Array.toList_push, List.countP_append, List.countP_singleton, hnew,
    List.countP_congr fun d hd => by rw [hold d hd]]
  simp only [decide_eq_true_eq]

theorem Received.refusals (h : s.Sound) (hr : s.Received e t) :
    t.arena.refusals t.mailbox + s.tally.refused = s.arena.refusals s.mailbox + t.tally.refused := by
  cases hr with
  | duplicate _ _ harena hmailbox htally =>
    rw [harena, hmailbox, htally]
    simp [Arena.refusals, Mailbox.push, Entry.refusedIn, entryOf]
  | taken ht htally =>
    rw [ht.refusals h, htally]
    simp only [true_and]
    omega

theorem Run.refusals (hr : Run Received {} es t) : t.arena.refusals t.mailbox = t.tally.refused := by
  refine (hr.preserves (P := fun s => s.Sound ∧ s.arena.refusals s.mailbox = s.tally.refused) ?_
    ⟨sound_start, rfl⟩).2
  rintro s e t ⟨h, hs⟩ hr
  have hstep := hr.refusals h
  exact ⟨hr.sound h, by omega⟩

end Assembly

end MailThread
