import MailThread.Proofs.Build.Chain
import MailThread.Proofs.Intake.Envelopes
import MailThread.Proofs.Json.Reader
import MailThread.Proofs.Listing.Spelling
import MailThread.Proofs.Program.Checks
import Mathlib

namespace MailThread.Program

open Intake

def idBefore (k : Nat) : String := if k = 0 then "" else toString (k - 1)

def replyRecord (k : Nat) : String :=
  "\x7b\"message_id\":\"" ++ toString k ++ "\",\"in_reply_to\":\"" ++ idBefore k ++
    "\",\"date\":0\x7d"

/-- The dump of a chain of `n` messages. -/
def chainDump (n : Nat) : String := "[" ++ ",".intercalate ((List.range n).map replyRecord) ++ "]"

def replyJson (k : Nat) : Json :=
  .obj [("message_id", .str (toString k)), ("in_reply_to", .str (idBefore k)), ("date", .num 0)]

def reply (k : Nat) : Envelope := { messageId := toString k, inReplyTo := idBefore k }

theorem isDigit_of_mem_toString {k : Nat} {c : Char} (h : c ∈ (toString k).toList) : c.isDigit := by
  rw [Nat.toString_eq_repr, Nat.toList_repr] at h
  exact Nat.isDigit_of_mem_toDigits (by decide) le_rfl h

theorem readValue_replyRecord (k fuel : Nat) (rest : List Char) :
    Json.readValue (fuel + 5) ((replyRecord k).toList ++ rest) = some (replyJson k, rest) := by
  let date : List Char := '"' :: ("date".toList ++ '"' :: ':' :: '0' :: '\x7d' :: rest)
  let before : List Char :=
    '"' :: ("in_reply_to".toList ++ '"' :: ':' :: '"' :: ((idBefore k).toList ++ '"' :: ',' :: date))
  have htext : (replyRecord k).toList ++ rest =
      '\x7b' :: '"' :: ("message_id".toList ++ '"' :: ':' :: '"' ::
        ((toString k).toList ++ '"' :: ',' :: before)) := by
    unfold replyRecord
    simp [before, date]
  have hbefore : ∀ c ∈ (idBefore k).toList, Json.Plain c := by
    unfold idBefore
    split
    next => simp
    next => exact fun _ hc => Json.plain_of_isDigit (isDigit_of_mem_toString hc)
  have hdigits : ∀ c ∈ (toString k).toList, Json.Plain c := fun _ hc =>
    Json.plain_of_isDigit (isDigit_of_mem_toString hc)
  have hid := Json.readValue_string hdigits (fuel + 2) (',' :: before)
  have hreply := Json.readValue_string hbefore (fuel + 1) (',' :: date)
  have hdate : Json.readValue (fuel + 1) ('0' :: '\x7d' :: rest) = some (.num 0, '\x7d' :: rest) := by
    rfl
  rw [htext, Json.readValue_object, Json.readFields_cons "message_id" (by simp [Json.Plain]) rfl hid]
  refine (Json.readFields_cons "in_reply_to" (by simp [Json.Plain]) rfl hreply _).trans ?_
  exact Json.readFields_cons "date" (by simp [Json.Plain]) rfl hdate _

theorem read?_chainDump {n : Nat} (hn : 0 < n) :
    Json.read? (chainDump n) = some (.arr ((List.range n).map replyJson)) := by
  have hopen (k : Nat) : ∃ cs, (replyRecord k).toList = '\x7b' :: cs := by
    unfold replyRecord
    simp
  apply Json.read?_intercalate (fun k _ => hopen k) fun k _ fuel => readValue_replyRecord k fuel
  · exact List.range_ne_nil.2 hn.ne'
  · exact Nat.le_refl 5
  · unfold chainDump
    simp [String.toList_intercalate, List.map_map, Function.comp_def]

theorem readEnvelopes_chain (n : Nat) :
    readEnvelopes (some (inboxPart (.arr ((List.range n).map replyJson)))) =
      .ok ((List.range n).map reply) := by
  apply readEnvelopes_eq_ok_iff.2
  refine ⟨_, rfl, List.forall₂_map_left_iff.2 (List.forall₂_map_right_iff.2 (List.forall₂_same.2 ?_))⟩
  intro k _
  have hdate : required wholeNumber (some (.num 0)) = .ok 0 := by
    rw [required, wholeNumber_eq_ok_iff]
    exact ⟨rfl, by decide +kernel⟩
  rw [readEnvelope_eq, report_eq_ok_iff, replyJson, envelope, record_eq_ok_iff]
  exact ⟨rfl, rfl, rfl, hdate, rfl, rfl⟩

theorem lt_of_mem_toString {k : Nat} {c : Char} (h : c ∈ (toString k).toList) :
    c.toNat < 0x10000 := by
  have hdigit := isDigit_of_mem_toString h
  simp only [Char.isDigit, Bool.and_eq_true, decide_eq_true_eq] at hdigit
  exact Nat.lt_of_le_of_lt (UInt32.le_iff_toNat_le.1 hdigit.2) (by decide)

theorem ofString_toString_injective {k l : Nat}
    (h : Text.ofString (toString k) = Text.ofString (toString l)) : k = l := by
  apply Nat.repr_injective
  exact Text.ofString_inj (fun _ => lt_of_mem_toString) (fun _ => lt_of_mem_toString) h

theorem ofString_toString_ne_empty (k : Nat) : Text.ofString (toString k) ≠ .empty := by
  intro h
  have hempty : toString k = "" :=
    Text.ofString_inj (fun _ => lt_of_mem_toString) (by simp) h
  exact Nat.repr_ne_empty hempty

theorem parentId?_reply_zero : (reply 0).parentId? = none := by
  decide

theorem parentId?_reply_succ (k : Nat) : (reply (k + 1)).parentId? = some (reply k).messageId := by
  have hne : Text.ofString (toString k) ≠ Text.ofString (toString (k + 1)) := fun h =>
    absurd (ofString_toString_injective h) (Nat.ne_of_lt (Nat.lt_succ_self k))
  have hfollowed : (reply (k + 1)).followed = [(reply k).messageId] :=
    if_pos ⟨ofString_toString_ne_empty k, hne, List.not_mem_nil⟩
  rw [Envelope.parentId?, hfollowed]
  rfl

theorem chain_replies (n : Nat) : Chain ((List.range n).map reply).toArray := by
  have hget {k : Nat} {e : Envelope} (h : ((List.range n).map reply).toArray[k]? = some e) :
      e = reply k := by
    rw [List.getElem?_toArray, List.getElem?_map] at h
    obtain ⟨l, hl, rfl⟩ := Option.map_eq_some_iff.1 h
    obtain ⟨_, rfl⟩ := List.getElem?_eq_some_iff.1 hl
    rw [List.getElem_range]
  refine ⟨fun he => ?_, fun hd he hid => ?_, fun he => ?_, fun hd he => ?_⟩
  · rw [hget he]
    exact ofString_toString_ne_empty _
  · rw [hget hd, hget he] at hid
    exact ofString_toString_injective hid
  · rw [hget he]
    exact parentId?_reply_zero
  · rw [hget hd, hget he]
    exact parentId?_reply_succ _

end MailThread.Program
