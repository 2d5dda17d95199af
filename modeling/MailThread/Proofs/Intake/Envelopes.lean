import MailThread.Proofs.Intake.Checked
import Mathlib.Data.Rat.Lemmas

namespace MailThread

def Index.json (i : Index) : Json :=
  match i.toRat? with
  | some q => .num q
  | none => .null

def Envelope.json (e : Envelope) : Json :=
  .obj [("message_id", .str e.messageId), ("references", .arr (e.references.map .str)),
    ("in_reply_to", .str e.inReplyTo), ("date", .num e.date), ("subject", .str e.subject),
    ("thread", (e.thread.map Index.json).getD .null)]

/-- The numbers of an envelope are whole, and the container it names could be one. -/
structure Envelope.Regular (e : Envelope) : Prop where
  date : Binary64.isWhole e.date
  thread : ∀ i, e.thread = some i → ∃ n : Nat, i = .slot n ∧ Binary64.isWhole (n : Rat)

theorem Envelope.Regular.exists_int {e : Envelope} (h : e.Regular) : ∃ z : Int, e.date = z := by
  have hwhole := h.date
  rw [Binary64.isWhole, Bool.and_eq_true, decide_eq_true_eq] at hwhole
  exact ⟨e.date.num, (Rat.coe_int_num_of_den_eq_one hwhole.1).symm⟩

namespace Intake

variable {j : Json} {js : List Json} {fields : List (String × Json)} {e : Envelope}
  {es : List Envelope} {c : Complaint} {q : Rat} {i : Index}

theorem texts_map_str (ts : List Text) : texts (.arr (ts.map .str)) = .ok ts := by
  rw [texts, items_eq_ok_iff, List.forall₂_map_left_iff]
  exact List.forall₂_same.2 fun t _ => rfl

theorem wholeNumber_eq_ok_iff : wholeNumber j = .ok q ↔ j = .num q ∧ Binary64.isWhole q := by
  cases j with
  | num p =>
    by_cases hp : Binary64.isWhole p
    · simp only [wholeNumber, if_pos hp, Except.ok.injEq, Json.num.injEq]
      exact ⟨fun h => ⟨h, h ▸ hp⟩, And.left⟩
    · simp only [wholeNumber, if_neg hp, refuse, Json.num.injEq, reduceCtorEq, false_iff, not_and]
      rintro rfl
      exact hp
  | _ => simp [wholeNumber, wrongKind, refuse]

theorem exists_natCast_of_isWhole (hq : Binary64.isWhole q) (h : 0 ≤ q) : ∃ n : Nat, q = n := by
  rw [Binary64.isWhole, Bool.and_eq_true, decide_eq_true_eq] at hq
  refine ⟨q.num.toNat, ?_⟩
  rw [← Rat.coe_int_num_of_den_eq_one hq.1, Rat.num_intCast]
  exact_mod_cast (Int.toNat_of_nonneg (Rat.num_nonneg.2 h)).symm

theorem ofRat_natCast (n : Nat) : Index.ofRat n = .slot n := by
  rw [Index.ofRat, if_pos ⟨Rat.den_natCast n, by simp⟩]
  simp

theorem position_eq_ok_iff :
    position j = .ok i ↔ ∃ n : Nat, j = .nat n ∧ i = .slot n ∧ Binary64.isWhole (n : Rat) := by
  cases j with
  | num q =>
    by_cases hq : Binary64.isWhole q ∧ 0 ≤ q
    · obtain ⟨n, rfl⟩ := exists_natCast_of_isWhole hq.1 hq.2
      rw [position, if_pos hq, ofRat_natCast]
      simp only [Json.nat, Except.ok.injEq, Json.num.injEq, Nat.cast_inj, exists_eq_left', hq.1,
        and_true]
      exact eq_comm
    · simp only [position, if_neg hq, Json.nat, Json.num.injEq, reduceCtorEq, false_iff]
      rintro ⟨n, rfl, _, hn⟩
      exact hq ⟨hn, Rat.natCast_nonneg⟩
  | _ => simp [position, wrongKind, refuse, Json.nat]

theorem optionalPosition_of_ne (h : j ≠ .null) :
    optionalPosition j = (position j).map some := by
  cases j with
  | null => exact absurd rfl h
  | _ => rfl

theorem optionalPosition_eq_some (h : optionalPosition j = .ok (some i)) : position j = .ok i := by
  have hne : j ≠ .null := by
    rintro rfl
    cases h
  rw [optionalPosition_of_ne hne] at h
  cases hposition : position j with
  | ok k =>
    rw [hposition] at h
    exact congrArg Except.ok (Option.some.inj (Except.ok.inj h))
  | error cs =>
    rw [hposition] at h
    cases h

theorem record_eq_ok_iff : record fields = .ok e ↔
    required text (fields.lookup "message_id") = .ok e.messageId ∧
      optional [] texts (fields.lookup "references") = .ok e.references ∧
      optional .empty text (fields.lookup "in_reply_to") = .ok e.inReplyTo ∧
      required wholeNumber (fields.lookup "date") = .ok e.date ∧
      optional .empty text (fields.lookup "subject") = .ok e.subject ∧
      optional none optionalPosition (fields.lookup "thread") = .ok e.thread := by
  obtain ⟨messageId, references, inReplyTo, date, subject, thread⟩ := e
  unfold record
  simp only
  split
  next h₁ h₂ h₃ h₄ h₅ h₆ =>
    rw [under_eq_ok_iff] at h₁ h₂ h₃ h₄ h₅ h₆
    simp [h₁, h₂, h₃, h₄, h₅, h₆]
  next hnone =>
    simp only [reduceCtorEq, false_iff]
    rintro ⟨h₁, h₂, h₃, h₄, h₅, h₆⟩
    exact hnone _ _ _ _ _ _ (under_eq_ok_iff.2 h₁) (under_eq_ok_iff.2 h₂) (under_eq_ok_iff.2 h₃)
      (under_eq_ok_iff.2 h₄) (under_eq_ok_iff.2 h₅) (under_eq_ok_iff.2 h₆)

/-- All that is wrong with a field is told, and in the order of the fields. -/
theorem complaints_record (fields : List (String × Json)) : complaints (record fields) =
    complaints (under "message_id" (required text (fields.lookup "message_id"))) ++
      complaints (under "references" (optional [] texts (fields.lookup "references"))) ++
      complaints (under "in_reply_to" (optional .empty text (fields.lookup "in_reply_to"))) ++
      complaints (under "date" (required wholeNumber (fields.lookup "date"))) ++
      complaints (under "subject" (optional .empty text (fields.lookup "subject"))) ++
      complaints (under "thread" (optional none optionalPosition (fields.lookup "thread"))) := by
  unfold record
  simp only
  split
  next h₁ h₂ h₃ h₄ h₅ h₆ => simp [h₁, h₂, h₃, h₄, h₅, h₆]
  next => rfl

theorem placed_of_mem_envelope (h : c ∈ complaints (envelope j)) : c.Placed := by
  cases j with
  | obj fields =>
    rw [envelope, complaints_record] at h
    simp only [List.mem_append] at h
    obtain ((((h | h) | h) | h) | h) | h := h <;> exact placed_of_mem_under (by decide) h
  | _ =>
    obtain rfl := List.mem_singleton.1 h
    simp [Complaint.Placed]

theorem told_text (j : Json) : Told (text j) := by
  cases j with
  | str t => exact told_ok t
  | _ => exact told_refuse _

theorem told_texts (j : Json) : Told (texts j) := by
  cases j with
  | arr js => exact told_items told_text js
  | _ => exact told_refuse _

theorem told_wholeNumber (j : Json) : Told (wholeNumber j) := by
  cases j with
  | num q =>
    change Told (if Binary64.isWhole q then .ok q else refuse .notWhole)
    split
    · exact told_ok q
    · exact told_refuse _
  | _ => exact told_refuse _

theorem told_position (j : Json) : Told (position j) := by
  cases j with
  | num q =>
    unfold position
    by_cases hq : Binary64.isWhole q ∧ 0 ≤ q
    · simp only [if_pos hq]
      exact told_ok _
    · simp only [if_neg hq]
      apply told_error
      intro hnone
      rw [List.append_eq_nil_iff] at hnone
      exact hq ⟨by simpa using hnone.1, by simpa using hnone.2⟩
  | _ => exact told_refuse _

theorem told_optionalPosition (j : Json) : Told (optionalPosition j) := by
  by_cases h : j = .null
  · rw [h]
    exact told_ok none
  · rw [optionalPosition_of_ne h]
    exact (told_position j).map some

theorem told_required {α : Type} {check : Json → Checked α} (h : ∀ j, Told (check j)) :
    ∀ j, Told (required check j)
  | some j => h j
  | none => told_refuse _

theorem told_optional {α : Type} {check : Json → Checked α} (default : α)
    (h : ∀ j, Told (check j)) : ∀ j, Told (optional default check j)
  | some j => h j
  | none => told_ok default

theorem told_envelope (j : Json) : Told (envelope j) := by
  cases j with
  | obj fields =>
    intro hnone
    rw [envelope, complaints_record] at hnone
    simp only [List.append_eq_nil_iff, complaints_under, List.map_eq_nil_iff] at hnone
    obtain ⟨⟨⟨⟨⟨h₁, h₂⟩, h₃⟩, h₄⟩, h₅⟩, h₆⟩ := hnone
    obtain ⟨messageId, h₁⟩ := told_required told_text _ h₁
    obtain ⟨references, h₂⟩ := told_optional [] told_texts _ h₂
    obtain ⟨inReplyTo, h₃⟩ := told_optional .empty told_text _ h₃
    obtain ⟨date, h₄⟩ := told_required told_wholeNumber _ h₄
    obtain ⟨subject, h₅⟩ := told_optional .empty told_text _ h₅
    obtain ⟨thread, h₆⟩ := told_optional none told_optionalPosition _ h₆
    exact ⟨⟨messageId, references, inReplyTo, date, subject, thread⟩,
      record_eq_ok_iff.2 ⟨h₁, h₂, h₃, h₄, h₅, h₆⟩⟩
  | _ => exact told_refuse _

theorem envelope_regular (h : envelope j = .ok e) : e.Regular := by
  cases j with
  | obj fields =>
    obtain ⟨_, _, _, hdate, _, hthread⟩ := record_eq_ok_iff.1 h
    constructor
    · cases hlookup : fields.lookup "date" with
      | none => simp [hlookup, required, refuse] at hdate
      | some j =>
        rw [hlookup] at hdate
        exact (wholeNumber_eq_ok_iff.1 hdate).2
    · intro i hi
      rw [hi] at hthread
      cases hlookup : fields.lookup "thread" with
      | none => simp [hlookup, optional] at hthread
      | some j =>
        rw [hlookup] at hthread
        obtain ⟨n, _, rfl, hn⟩ := position_eq_ok_iff.1 (optionalPosition_eq_some hthread)
        exact ⟨n, rfl, hn⟩
  | _ => cases h

theorem envelope_json (h : e.Regular) : envelope e.json = .ok e := by
  have hthread : optionalPosition ((e.thread.map Index.json).getD .null) = .ok e.thread := by
    cases hi : e.thread with
    | none => rfl
    | some i =>
      obtain ⟨n, rfl, hn⟩ := h.thread i hi
      have hposition : position (.nat n) = .ok (.slot n) := position_eq_ok_iff.2 ⟨n, rfl, rfl, hn⟩
      change (position (.nat n)).map some = _
      rw [hposition]
      rfl
  rw [Envelope.json, envelope, record_eq_ok_iff]
  refine ⟨rfl, texts_map_str e.references, rfl, ?_, rfl, hthread⟩
  exact wholeNumber_eq_ok_iff.2 ⟨rfl, h.date⟩

theorem readEnvelope_eq (j : Json) : readEnvelope (some j) = report (envelope j) := rfl

theorem report_eq_ok_iff {α : Type} {r : Checked α} {a : α} : report r = .ok a ↔ r = .ok a := by
  cases r <;> simp [report]

/-- What is wrong with a record, as it is told when the record is read alone. -/
def recordIssues (j : Json) : List Issue :=
  match readEnvelope (some j) with
  | .ok _ => []
  | .error e => e.issues?.getD []

theorem recordIssues_eq (j : Json) :
    recordIssues j = (complaints (envelope j)).map Complaint.issue := by
  rw [recordIssues, readEnvelope_eq]
  cases envelope j <;> rfl

theorem recordIssues_eq_nil_iff : recordIssues j = [] ↔ ∃ e, readEnvelope (some j) = .ok e := by
  rw [recordIssues_eq, List.map_eq_nil_iff]
  simp only [readEnvelope_eq, report_eq_ok_iff]
  constructor
  · exact told_envelope j
  · rintro ⟨e, he⟩
    rw [he, complaints_ok]

/-- The issues of a list are those of its records, with the positions of the records in front. -/
theorem map_issue_complaints_items (js : List Json) :
    (complaints (items envelope js)).map Complaint.issue =
      (js.mapIdx fun i j => (recordIssues j).map (Issue.within (toString i))).flatten := by
  have hrecord : ∀ (i : Nat) (j : Json),
      ((complaints (envelope j)).map (·.under (toString i))).map Complaint.issue =
        (recordIssues j).map (Issue.within (toString i)) := by
    intro i j
    rw [recordIssues_eq, List.map_map, List.map_map]
    apply List.map_congr_left
    intro c hc
    exact (placed_of_mem_envelope hc).issue_under _
  rw [complaints_items, List.map_flatten, map_mapIdx]
  simp only [hrecord]

theorem readEnvelopes_arr (js : List Json) :
    readEnvelopes (some (.arr js)) = report (items envelope js) := rfl

theorem readEnvelopes_eq_ok_iff {v : Json} : readEnvelopes (some v) = .ok es ↔
    ∃ js, v = .arr js ∧ List.Forall₂ (fun j e => readEnvelope (some j) = .ok e) js es := by
  cases v with
  | arr js =>
    simp only [readEnvelopes_arr, report_eq_ok_iff, items_eq_ok_iff, readEnvelope_eq,
      Json.arr.injEq, exists_eq_left']
  | _ => simp [readEnvelopes, required, envelopes, wrongKind, refuse, report]

theorem readEnvelopes_error (h : ∃ j ∈ js, ∀ e, readEnvelope (some j) ≠ .ok e) :
    readEnvelopes (some (.arr js)) = .error (.invalidRecords
      (js.mapIdx fun i j => (recordIssues j).map (Issue.within (toString i))).flatten) := by
  obtain ⟨j, hj, hne⟩ := h
  rw [readEnvelopes_arr, ← map_issue_complaints_items]
  cases hitems : items envelope js with
  | error cs => rfl
  | ok es =>
    obtain ⟨e, he⟩ := (exists_of_items_eq_ok hitems).1 j hj
    exact absurd (report_eq_ok_iff.2 he) (hne e)

theorem regular_of_mem (h : readEnvelopes (some (.arr js)) = .ok es) (he : e ∈ es) : e.Regular := by
  rw [readEnvelopes_arr, report_eq_ok_iff] at h
  obtain ⟨j, hj⟩ := (exists_of_items_eq_ok h).2 e he
  exact envelope_regular hj

theorem readEnvelopes_json (h : ∀ e ∈ es, e.Regular) :
    readEnvelopes (some (.arr (es.map Envelope.json))) = .ok es := by
  rw [readEnvelopes_arr, report_eq_ok_iff, items_eq_ok_iff, List.forall₂_map_left_iff]
  exact List.forall₂_same.2 fun e he => envelope_json (h e he)

/-- Whatever is read, a list of records is taken over if and only if each of its records is, and
gives what they give. Otherwise the error tells of every record that is refused, and all that is
wrong with it, in the order of the list. What is taken over has whole numbers, and it is taken over
again as it is. -/
theorem readEnvelopes_whole (v : Json) :
    (∀ es, readEnvelopes (some v) = .ok es ↔
      ∃ js, v = .arr js ∧ List.Forall₂ (fun j e => readEnvelope (some j) = .ok e) js es) ∧
      (∀ js, v = .arr js → (∃ j ∈ js, ∀ e, readEnvelope (some j) ≠ .ok e) →
        ∃ err, readEnvelopes (some v) = .error err ∧ err.code.text = "VALID_003" ∧
          err.issues? =
            some (js.mapIdx fun i j => (recordIssues j).map (Issue.within (toString i))).flatten) ∧
      (∀ j, recordIssues j = [] ↔ ∃ e, readEnvelope (some j) = .ok e) ∧
      (∀ j e, readEnvelope (some j) = .ok e → (∃ z : Int, e.date = z) ∧
        (e.thread = none ∨ ∃ n : Nat, e.thread = some (.slot n))) ∧
      ∀ es, readEnvelopes (some v) = .ok es →
        readEnvelopes (some (.arr (es.map Envelope.json))) = .ok es := by
  refine ⟨fun es => readEnvelopes_eq_ok_iff, ?_, fun j => recordIssues_eq_nil_iff, fun j e h => ?_,
    fun es h => ?_⟩
  · rintro js rfl hbad
    exact ⟨_, readEnvelopes_error hbad, rfl, rfl⟩
  · have hregular := envelope_regular (report_eq_ok_iff.1 h)
    refine ⟨hregular.exists_int, ?_⟩
    cases hthread : e.thread with
    | none => exact .inl rfl
    | some i =>
      obtain ⟨n, rfl, _⟩ := hregular.thread i hthread
      exact .inr ⟨n, rfl⟩
  · obtain ⟨js, rfl, _⟩ := readEnvelopes_eq_ok_iff.1 h
    exact readEnvelopes_json fun e he => regular_of_mem h he

/-- Of three records one is right, one is no record, and one lacks its id, has a fraction for a date
and a thread that is wrong in two ways. -/
theorem readEnvelopes_whole_mixed :
    ∃ err, readEnvelopes (some (.arr [.obj [("date", .num (3 / 2)), ("thread", .num (-1 / 2))],
        .obj [("message_id", .str "a"), ("date", .nat 1)], .nat 7])) = .error err ∧
      err.code.text = "VALID_003" ∧
      err.issues?.map (·.map (·.field)) =
        some ["0.message_id", "0.date", "0.thread", "0.thread", "2"] := by
  obtain ⟨_, herror, _⟩ := readEnvelopes_whole
    (.arr [.obj [("date", .num (3 / 2)), ("thread", .num (-1 / 2))],
      .obj [("message_id", .str "a"), ("date", .nat 1)], .nat 7])
  obtain ⟨err, hread, hcode, hissues⟩ := herror _ rfl ⟨.nat 7, by simp, fun e h => by cases h⟩
  refine ⟨err, hread, hcode, ?_⟩
  rw [hissues]
  decide +kernel

end Intake

end MailThread
