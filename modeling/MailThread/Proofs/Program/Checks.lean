import MailThread.Program
import MailThread.Proofs.Listing.Spelling
import MailThread.Proofs.Outcome

namespace MailThread

namespace Intake

/-- The part of a dump that holds the inbox: the field of that name, or else the dump itself. -/
def inboxPart (j : Json) : Json := (j.field? "inbox").getD j

/-- The part of a dump that holds the sent folder, if there is one beside an inbox. -/
def sentPart? (j : Json) : Option Json :=
  match j.field? "inbox", j.field? "sent" with
  | none, _ | _, none | _, some .null => none
  | some _, some s => some s

def readSent (j : Json) : Except ThreadError (Option (List Envelope)) :=
  match sentPart? j with
  | none => .ok none
  | some s => (readEnvelopes (some s)).map some

/-- The inbox of a dump is read before its sent folder. -/
theorem readBundle_eq (j : Json) : readBundle (some j) =
    readEnvelopes (some (inboxPart j)) >>= fun inbox =>
      (readSent j).map fun sent => { inbox, sent } := by
  cases j with
  | obj fields =>
    simp only [readBundle, inboxPart, readSent, sentPart?, Json.field?]
    cases fields.lookup "inbox" with
    | none => rfl
    | some inbox =>
      simp only [Option.getD_some]
      cases fields.lookup "sent" with
      | none => rfl
      | some s =>
        cases readEnvelopes (some inbox) with
        | error e => cases s <;> rfl
        | ok es =>
          cases s with
          | arr js =>
            simp only [ok_bind]
            cases readEnvelopes (some (.arr js)) <;> rfl
          | _ => rfl
  | _ => rfl

end Intake

namespace Program

open Intake

/-- What is looked at before anything is printed. -/
inductive Check where
  | file
  | sort
  | subsort
  | found
  | readable
  | json
  | inbox
  | sent
deriving DecidableEq

namespace Check

def all : List Check := [file, sort, subsort, found, readable, json, inbox, sent]

theorem mem_all (c : Check) : c ∈ all := by cases c <;> decide

def code : Check → String
  | file => "VALID_001"
  | sort | subsort => "VALID_002"
  | found => "INPUT_001"
  | readable => "INPUT_002"
  | json => "UNKNOWN"
  | inbox | sent => "VALID_003"

end Check

def BadOrder (option : String) (given : Option Text) (f : Failure) : Prop :=
  ∃ t, given = some t ∧ (∀ o, ¬ RowOrder.Spells t o) ∧
    f = .known (.badFormat option "date|subject[:asc|desc]" (some (.str t)))

def Holds (o : Options) (read : String → Except ReadFailure String) (j : Json) : Prop :=
  ∃ p text, o.file = some p ∧ read p = .ok text ∧ Json.read? text = some j

/-- A check fails, whatever the other checks say, and gives an error. -/
def Fails (o : Options) (read : String → Except ReadFailure String) : Check → Failure → Prop
  | .file, f => (∀ p, o.file = some p → p = "") ∧ f = .known (.fieldMissing "file")
  | .sort, f => BadOrder "sort" o.sort f
  | .subsort, f => BadOrder "subsort" o.subsort f
  | .found, f => ∃ p, o.file = some p ∧ read p = .error .missing ∧ f = .known (.sourceMissing p)
  | .readable, f => ∃ p reason, o.file = some p ∧ read p = .error (.unreadable reason) ∧
      f = .known (.sourceUnreadable p (some reason))
  | .json, f => ∃ p text, o.file = some p ∧ read p = .ok text ∧ Json.read? text = none ∧
      f = .malformed
  | .inbox, f => ∃ j e, Holds o read j ∧ readEnvelopes (some (inboxPart j)) = .error e ∧
      f = .known e
  | .sent, f => ∃ j s e, Holds o read j ∧ sentPart? j = some s ∧
      readEnvelopes (some s) = .error e ∧ f = .known e

/-- The first check of a list that fails gives the error `f`. -/
inductive FirstFailure (fails : Check → Failure → Prop) : List Check → Failure → Prop where
  | here {c : Check} {cs : List Check} {f : Failure} : fails c f → FirstFailure fails (c :: cs) f
  | later {c : Check} {cs : List Check} {f : Failure} : (∀ g, ¬ fails c g) →
      FirstFailure fails cs f → FirstFailure fails (c :: cs) f

/-- A computation fails with the error of the first check of a list that fails, and for no other
reason. -/
def Guarded {α : Type} (fails : Check → Failure → Prop) (cs : List Check) (x : Except Failure α) :
    Prop :=
  ∀ f, x = .error f ↔ FirstFailure fails cs f

section Guarded

variable {α β : Type} {fails : Check → Failure → Prop} {c : Check} {cs : List Check} {f : Failure}
  {x : Except Failure α} {k : α → Except Failure β}

theorem FirstFailure.exists_fails (h : FirstFailure fails cs f) : ∃ c ∈ cs, fails c f := by
  induction h with
  | here h => exact ⟨_, List.mem_cons_self, h⟩
  | later _ _ ih =>
    obtain ⟨c, hc, h⟩ := ih
    exact ⟨c, List.mem_cons_of_mem _ hc, h⟩

theorem guarded_of_passes (hc : ∀ g, ¬ fails c g) (hx : Guarded fails cs x) :
    Guarded fails (c :: cs) x := by
  intro f
  rw [hx f]
  constructor
  · exact .later hc
  · intro h
    cases h with
    | here h => exact absurd h (hc f)
    | later _ h => exact h

theorem guarded_of_fails (hf : ∀ g, fails c g ↔ g = f) :
    Guarded fails (c :: cs) (.error f : Except Failure α) := by
  intro g
  constructor
  · intro h
    exact .here ((hf g).2 (Except.error.inj h).symm)
  · intro h
    cases h with
    | here h => rw [(hf g).1 h]
    | later hnone _ => exact absurd ((hf f).2 rfl) (hnone f)

theorem guarded_single : Guarded fails [c] x ↔ ∀ f, x = .error f ↔ fails c f := by
  refine forall_congr' fun f => iff_congr Iff.rfl ?_
  constructor
  · intro h
    cases h with
    | here h => exact h
    | later _ h => cases h
  · exact .here

theorem Guarded.bind (hx : Guarded fails [c] x) (hk : ∀ a, x = .ok a → Guarded fails cs (k a)) :
    Guarded fails (c :: cs) (x >>= k) := by
  rw [guarded_single] at hx
  cases x with
  | error f =>
    apply guarded_of_fails
    intro g
    rw [← hx g, Except.error.injEq]
    exact eq_comm
  | ok a =>
    apply guarded_of_passes _ (hk a rfl)
    intro g hg
    cases (hx g).2 hg

theorem Guarded.exists_ok (hx : Guarded fails cs x) (h : ∀ c f, ¬ fails c f) :
    ∃ a, x = .ok a := by
  cases x with
  | ok a => exact ⟨a, rfl⟩
  | error f =>
    obtain ⟨c, _, hc⟩ := ((hx f).1 rfl).exists_fails
    exact absurd hc (h c f)

theorem Guarded.passes (hx : Guarded fails cs x) {a : α} (h : x = .ok a) :
    ∀ c ∈ cs, ∀ f, ¬ fails c f := by
  have hnone : ∀ f, ¬ FirstFailure fails cs f := by
    intro f hf
    cases h.symm.trans ((hx f).2 hf)
  clear hx h
  induction cs with
  | nil => simp
  | cons c cs ih =>
    have hc : ∀ g, ¬ fails c g := fun g hg => hnone g (.here hg)
    rw [List.forall_mem_cons]
    exact ⟨hc, ih fun f hf => hnone f (.later hc hf)⟩

theorem Guarded.bind_ok (hx : Guarded fails cs x) (hk : ∀ a, ∃ b, k a = .ok b) :
    Guarded fails cs (x >>= k) := by
  intro f
  rw [← hx f]
  cases x with
  | error g => simp
  | ok a =>
    obtain ⟨b, hb⟩ := hk a
    simp [hb]

end Guarded

theorem Holds.unique {o : Options} {read : String → Except ReadFailure String} {i j : Json}
    (hi : Holds o read i) (hj : Holds o read j) : i = j := by
  obtain ⟨p, text, hp, htext, hi⟩ := hi
  obtain ⟨q, text', hq, htext', hj⟩ := hj
  obtain rfl := Option.some.inj (hp.symm.trans hq)
  obtain rfl := Except.ok.inj (htext.symm.trans htext')
  exact Option.some.inj (hi.symm.trans hj)

variable {o : Options} {read : String → Except ReadFailure String} {f : Failure} {p option : String}
  {given : Option Text}

theorem path_eq_ok_iff : path o = .ok p ↔ o.file = some p ∧ p ≠ "" := by
  unfold path
  cases o.file with
  | none => simp
  | some q =>
    by_cases hq : q = ""
    · simp only [if_pos hq, reduceCtorEq, Option.some.injEq, false_iff, not_and, not_not]
      rintro rfl
      exact hq
    · simp only [if_neg hq, Except.ok.injEq, Option.some.injEq]
      exact ⟨fun h => ⟨h, h ▸ hq⟩, And.left⟩

theorem guarded_path : Guarded (Fails o read) [.file] (path o) := by
  rw [guarded_single]
  intro f
  unfold path Fails
  cases o.file with
  | none => simp [eq_comm]
  | some q =>
    by_cases hq : q = "" <;> simp [hq, eq_comm]

theorem sortOption_eq_ok_iff {order : Option RowOrder} :
    sortOption option given = .ok order ↔ Option.Rel RowOrder.Spells given order := by
  cases given with
  | none => cases order <;> simp [sortOption]
  | some t =>
    simp only [sortOption, RowOrder.parse]
    cases h : RowOrder.ofText? t <;> cases order <;>
      simp [Except.map, ← RowOrder.ofText?_eq_some_iff, h]

theorem sortOption_eq_error_iff : sortOption option given = .error f ↔ BadOrder option given f := by
  cases given with
  | none => simp [sortOption, BadOrder]
  | some t =>
    simp only [sortOption, RowOrder.parse, BadOrder, ← RowOrder.ofText?_eq_some_iff]
    cases h : RowOrder.ofText? t <;> simp [Except.map, h, eq_comm]

theorem guarded_sort : Guarded (Fails o read) [.sort] (sortOption "sort" o.sort) :=
  guarded_single.2 fun _ => sortOption_eq_error_iff

theorem guarded_subsort : Guarded (Fails o read) [.subsort] (sortOption "subsort" o.subsort) :=
  guarded_single.2 fun _ => sortOption_eq_error_iff

theorem readSent_eq_error_iff {j : Json} {e : ThreadError} :
    readSent j = .error e ↔ ∃ s, sentPart? j = some s ∧ readEnvelopes (some s) = .error e := by
  rw [readSent]
  cases sentPart? j with
  | none => simp
  | some s => simp [map_eq_error_iff]

section

variable {j : Json} (hj : Holds o read j)
include hj

theorem inbox_fails_iff :
    Fails o read .inbox f ↔ ∃ e, readEnvelopes (some (inboxPart j)) = .error e ∧ f = .known e := by
  constructor
  · rintro ⟨i, e, hi, he⟩
    exact ⟨e, Holds.unique hi hj ▸ he⟩
  · rintro ⟨e, he⟩
    exact ⟨j, e, hj, he⟩

theorem sent_fails_iff :
    Fails o read .sent f ↔ ∃ e, readSent j = .error e ∧ f = .known e := by
  simp only [readSent_eq_error_iff]
  constructor
  · rintro ⟨i, s, e, hi, hs, he, hf⟩
    exact ⟨e, ⟨s, Holds.unique hi hj ▸ hs, he⟩, hf⟩
  · rintro ⟨e, ⟨s, hs, he⟩, hf⟩
    exact ⟨j, s, e, hj, hs, he, hf⟩

theorem guarded_bundle :
    Guarded (Fails o read) [.inbox, .sent] ((readBundle (some j)).mapError .known) := by
  have hinbox : Guarded (Fails o read) [.inbox]
      ((readEnvelopes (some (inboxPart j))).mapError .known) :=
    guarded_single.2 fun f => by rw [mapError_eq_error_iff, inbox_fails_iff hj]
  rw [readBundle_eq, mapError_bind]
  apply hinbox.bind
  intro inbox _
  rw [guarded_single]
  intro f
  rw [mapError_eq_error_iff, sent_fails_iff hj]
  simp only [map_eq_error_iff]

end

theorem guarded_load (hp : o.file = some p) :
    Guarded (Fails o read) [.found, .readable, .json, .inbox, .sent] (load read p) := by
  unfold load
  cases hread : read p with
  | error e =>
    cases e with
    | missing =>
      apply guarded_of_fails
      intro g
      simp [Fails, hp, hread]
    | unreadable reason =>
      apply guarded_of_passes (by simp [Fails, hp, hread])
      apply guarded_of_fails
      intro g
      simp [Fails, hp, hread]
  | ok text =>
    apply guarded_of_passes (by simp [Fails, hp, hread])
    apply guarded_of_passes (by simp [Fails, hp, hread])
    cases hjson : Json.read? text with
    | none =>
      simp only [hjson]
      apply guarded_of_fails
      intro g
      simp [Fails, hp, hread, hjson]
    | some j =>
      simp only [hjson]
      apply guarded_of_passes (by simp [Fails, hp, hread, hjson])
      exact guarded_bundle ⟨p, text, hp, hread, hjson⟩

/-- What is loaded was in the source. -/
theorem holds_of_load {d : Bundle} (hp : o.file = some p) (h : load read p = .ok d) :
    ∃ j, Holds o read j ∧ readEnvelopes (some (inboxPart j)) = .ok d.inbox ∧
      readSent j = .ok d.sent := by
  unfold load at h
  cases hread : read p with
  | error e => cases e <;> simp [hread] at h
  | ok text =>
    cases hjson : Json.read? text with
    | none => simp [hread, hjson] at h
    | some j =>
      simp only [hread, hjson, readBundle_eq] at h
      cases hinbox : readEnvelopes (some (inboxPart j)) with
      | error e => simp [hinbox] at h
      | ok inbox =>
        cases hsent : readSent j with
        | error e => simp [hinbox, hsent, Except.map] at h
        | ok sent =>
          rw [hinbox, hsent] at h
          cases h
          exact ⟨j, ⟨p, text, hp, hread, hjson⟩, hinbox, hsent⟩

end Program

end MailThread
