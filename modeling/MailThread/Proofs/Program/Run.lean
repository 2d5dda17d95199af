import MailThread.Proofs.Build.Chain
import MailThread.Proofs.Build.Walks
import MailThread.Proofs.Program.Checks
import MailThread.Proofs.Program.Dump
import Mathlib

namespace MailThread.Program

open Intake

variable {o : Options} {env : Environment} {clock : Rat} {read : String → Except ReadFailure String}
  {f : Failure} {p : String}

/-- How the listing is drawn, once the orders of its rows are read. -/
def style (o : Options) (env : Environment) (clock : Rat) (sort subsort : Option RowOrder) :
    ListingStyle :=
  { now := ListingStyle.nowAt clock
    subjectWidth := (Settings.ofEnvironment env).subjectWidth
    windowDays := (Settings.ofEnvironment env).windowDays
    sort, subsort
    filter := o.filter.getD .empty }

/-- The row as the user reads it: two blanks for each level, the subject or the mark of one that is not
shown, and the date. -/
def Reads (row : MessageLine) (line : Text) : Prop :=
  ∃ n : Nat, row.indentation = n ∧ line = Text.mk (List.replicate (2 * n) 0x20) ++
    ((if row.subject = .empty then ("↳" : Text) else row.subject) ++
      ("  [" ++ row.dateLabel ++ "]" : Text))

/-- The lines of the listing that was asked for. -/
structure Lines (conversations : Bool) (f : Forest) (s : ListingStyle) (ls : List Text) : Prop where
  heads : conversations = true → ∃ lines, f.conversationLines s = .ok lines ∧
    ls = lines.map fun line => line.subject ++ ("  [" ++ line.dateLabel ++ "]" : Text)
  rows : conversations = false → ∃ rows, f.messageLines s = .ok rows ∧ List.Forall₂ Reads rows ls

theorem Reads.eq_text {row : MessageLine} {line : Text} (h : Reads row line) : line = row.text := by
  obtain ⟨n, hn, rfl⟩ := h
  exact (MessageLine.text_eq hn).symm

theorem Lines.eq_texts {f : Forest} {s : ListingStyle} {ls : List Text} {rows : List MessageLine}
    (h : Lines false f s ls) (hrows : f.messageLines s = .ok rows) :
    ls = rows.map MessageLine.text := by
  obtain ⟨_, hrows', hreads⟩ := h.rows rfl
  cases hrows.symm.trans hrows'
  clear h hrows hrows'
  induction hreads with
  | nil => rfl
  | cons hline _ ih => rw [hline.eq_text, ih, List.map_cons]

theorem page?_eq {widths : List Nat} {draw : Unit → Option (List Text)} {ls : List Text}
    (hwidths : widths = ls.map Text.length)
    (hdraw : (Listing.page ls).length ≤ Text.widest → draw () = some ls) :
    page? widths draw =
      if (Listing.page ls).length ≤ Text.widest then some (Listing.page ls) else none := by
  rw [page?, hwidths, ← Listing.length_page]
  split
  next hfit => rw [hdraw hfit, Option.map_some]
  next => rfl

/-- The listing of a forest that is laid out is its page, if that is not longer than a text can be. -/
theorem page_eq {f : Forest} (h : f.Sound) (hr : f.Harvested) (hl : f.Laid) (conversations : Bool)
    (s : ListingStyle) :
    ∃ ls, Lines conversations f s ls ∧ page conversations f s =
      .ok (if (Listing.page ls).length ≤ Text.widest then some (Listing.page ls) else none) := by
  obtain ⟨heads, rows, hheads, hrows, hlisted⟩ := h.listed s
  cases conversations with
  | true =>
    refine ⟨heads.map ConversationLine.text, ⟨fun _ => ⟨heads, hheads, rfl⟩, nofun⟩, ?_⟩
    have hpage : page true f s = .ok (page? (heads.map ConversationLine.width) fun _ =>
        some (heads.map ConversationLine.text)) := by
      simp only [page, hheads]
      rfl
    rw [hpage, page?_eq _ fun _ => rfl]
    simp only [List.map_map, Function.comp_def, ConversationLine.length_text]
  | false =>
    have hlevel : ∀ row ∈ rows, ∃ n : Nat, row.indentation = n := by
      intro row hrow
      obtain ⟨i, hi⟩ := hlisted.exists_messageLine? hrow
      obtain ⟨n, _, hn⟩ := h.exists_level hr hl hi
      exact ⟨n, hn⟩
    have hreads : List.Forall₂ Reads rows (rows.map MessageLine.text) := by
      rw [List.forall₂_map_right_iff, List.forall₂_same]
      intro row hrow
      obtain ⟨n, hn⟩ := hlevel row hrow
      exact ⟨n, hn, MessageLine.text_eq hn⟩
    refine ⟨rows.map MessageLine.text, ⟨nofun, fun _ => ⟨rows, hrows, hreads⟩⟩, ?_⟩
    have hpage : page false f s = .ok (page? (rows.map MessageLine.width) fun _ =>
        MessageLine.texts? rows) := by
      simp only [page, hrows]
      rfl
    rw [hpage, page?_eq]
    · simp only [List.map_map, Function.comp_def, MessageLine.length_text]
    · -- a row is no longer than the page on which it stands
      intro hfit
      apply MessageLine.texts?_eq_some hlevel
      intro row hrow
      exact (Listing.length_le_page (List.mem_map_of_mem hrow)).trans hfit

/-- The checks, and what passes them: the orders of rows and the envelopes of the source. -/
def checked (o : Options) (read : String → Except ReadFailure String) :
    Except Failure (Option RowOrder × Option RowOrder × Bundle) := do
  let p ← path o
  let sort ← sortOption "sort" o.sort
  let subsort ← sortOption "subsort" o.subsort
  let d ← load read p
  return (sort, subsort, d)

/-- What follows on the checks: the forest is built and its listing printed. -/
def draw (o : Options) (env : Environment) (style : ListingStyle) (d : Bundle) :
    Except Failure Output :=
  build (buildOptions o (Settings.ofEnvironment env)) d >>= print o style

theorem run_eq (o : Options) (env : Environment) (clock : Rat)
    (read : String → Except ReadFailure String) :
    run o env clock read = checked o read >>= fun c =>
      draw o env (style o env clock c.1 c.2.1) c.2.2 := by
  simp only [run, checked, listing, bind_assoc, pure_bind]
  rfl

/-- Nothing that was taken over can fail to be built and listed. Its listing is printed, unless it is
longer than a text can be. -/
theorem draw_eq (o : Options) (env : Environment) (s : ListingStyle) (d : Bundle) :
    ∃ b ls, Build.run (buildOptions o (Settings.ofEnvironment env)) (.ofEnvelopes d.inbox)
        (d.sent.elim .absent .folder) = .ok b ∧ Lines o.conversations b.forest s ls ∧
      ((Listing.page ls).length ≤ Text.widest →
        ∃ out, draw o env s d = .ok out ∧ out.text = (Listing.page ls).toString) ∧
      (Text.widest < (Listing.page ls).length →
        ∃ before, draw o env s d = .error (.tooLong before)) := by
  have hsent : d.sent.elim .absent .folder ≠ SentFolder.own := by
    cases d.sent <;> simp
  obtain ⟨b, _, _, hb, hmade⟩ := Build.run_eq_ok (buildOptions o (Settings.ofEnvironment env))
    (.ofEnvelopes d.inbox) _ hsent
  obtain ⟨ls, hls, hpage⟩ := page_eq hmade.forest_sound hmade.harvested hmade.laid o.conversations s
  have hbuild : build (buildOptions o (Settings.ofEnvironment env)) d = .ok b := by
    obtain ⟨inbox, sent⟩ := d
    cases sent <;> exact congrArg (Except.mapError Failure.fault) hb
  refine ⟨b, ls, hb, hls, fun hfit => ?_, fun hlong => ?_⟩
  · rw [draw, hbuild, ok_bind, print, hpage, if_pos hfit]
    exact ⟨_, rfl, rfl⟩
  · rw [draw, hbuild, ok_bind, print, hpage, if_neg (Nat.not_le_of_gt hlong)]
    exact ⟨_, rfl⟩

theorem guarded_checked (o : Options) (read : String → Except ReadFailure String) :
    Guarded (Fails o read) Check.all (checked o read) := by
  apply guarded_path.bind
  intro p hp
  apply guarded_sort.bind
  intro sort _
  apply guarded_subsort.bind
  intro subsort _
  apply (guarded_load (path_eq_ok_iff.1 hp).1).bind_ok
  exact fun d => ⟨_, rfl⟩

theorem holds_of_checked {sort subsort : Option RowOrder} {d : Bundle}
    (h : checked o read = .ok (sort, subsort, d)) :
    ∃ j, Holds o read j ∧ readEnvelopes (some (inboxPart j)) = .ok d.inbox ∧
      readSent j = .ok d.sent ∧ Option.Rel RowOrder.Spells o.sort sort ∧
      Option.Rel RowOrder.Spells o.subsort subsort := by
  simp only [checked, bind_eq_ok_iff] at h
  obtain ⟨p, hp, _, hsort, _, hsubsort, _, hd, h⟩ := h
  cases h
  obtain ⟨j, hj, hinbox, hsent⟩ := holds_of_load (path_eq_ok_iff.1 hp).1 hd
  exact ⟨j, hj, hinbox, hsent, sortOption_eq_ok_iff.1 hsort, sortOption_eq_ok_iff.1 hsubsort⟩

theorem checked_eq_ok {j : Json} {text : String} {d : Bundle} {sort subsort : Option RowOrder}
    (hfile : o.file = some p) (hp : p ≠ "") (hsort : sortOption "sort" o.sort = .ok sort)
    (hsubsort : sortOption "subsort" o.subsort = .ok subsort) (hread : read p = .ok text)
    (hj : Json.read? text = some j) (hinbox : readEnvelopes (some (inboxPart j)) = .ok d.inbox)
    (hsent : readSent j = .ok d.sent) : checked o read = .ok (sort, subsort, d) := by
  have hload : load read p = .ok d := by
    simp only [load, hread, hj, readBundle_eq, hinbox, hsent, ok_bind]
    rfl
  rw [checked, path_eq_ok_iff.2 ⟨hfile, hp⟩, ok_bind, hsort, ok_bind, hsubsort, ok_bind, hload]
  rfl

theorem code_of_readEnvelopes {j : Option Json} {e : ThreadError} (h : readEnvelopes j = .error e) :
    e.code = .invalidRecords := by
  obtain ⟨_, _, rfl⟩ := mapError_eq_error_iff.1 h
  rfl

theorem code_of_fails {c : Check} (h : Fails o read c f) : f.error.code.text = c.code := by
  cases c with
  | file =>
    obtain ⟨_, rfl⟩ := h
    rfl
  | sort | subsort =>
    obtain ⟨t, _, _, rfl⟩ := h
    rfl
  | found =>
    obtain ⟨p, _, _, rfl⟩ := h
    rfl
  | readable =>
    obtain ⟨p, reason, _, _, rfl⟩ := h
    rfl
  | json =>
    obtain ⟨p, text, _, _, _, rfl⟩ := h
    rfl
  | inbox =>
    obtain ⟨j, e, _, he, rfl⟩ := h
    exact congrArg ErrorCode.text (code_of_readEnvelopes he)
  | sent =>
    obtain ⟨j, s, e, _, _, he, rfl⟩ := h
    exact congrArg ErrorCode.text (code_of_readEnvelopes he)

theorem ne_tooLong_of_fails {c : Check} (h : Fails o read c f) (before : List Report) :
    f ≠ .tooLong before := by
  rintro rfl
  cases c <;> simp [Fails, BadOrder] at h

/-- A run that fails does so with the error of the first check that fails, or because its listing is
too long. -/
theorem run_eq_error_iff (o : Options) (env : Environment) (clock : Rat)
    (read : String → Except ReadFailure String) :
    FirstFailure (Fails o read) Check.all f ↔
      run o env clock read = .error f ∧ ∀ before, f ≠ .tooLong before := by
  rw [← guarded_checked o read f, run_eq]
  constructor
  · intro h
    obtain ⟨c, _, hc⟩ := ((guarded_checked o read f).1 h).exists_fails
    rw [h]
    exact ⟨rfl, ne_tooLong_of_fails hc⟩
  · rintro ⟨h, hshort⟩
    cases hc : checked o read with
    | error g =>
      rw [hc] at h
      exact congrArg Except.error (Except.error.inj h)
    | ok c =>
      -- behind the checks a run fails for one reason only
      rw [hc, ok_bind] at h
      obtain ⟨_, ls, _, _, hfits, hlong⟩ := draw_eq o env (style o env clock c.1 c.2.1) c.2.2
      rcases le_or_gt (Listing.page ls).length Text.widest with hle | hlt
      · obtain ⟨out, hout, _⟩ := hfits hle
        rw [hout] at h
        cases h
      · obtain ⟨before, hbefore⟩ := hlong hlt
        rw [hbefore] at h
        exact absurd (Except.error.inj h).symm (hshort before)

/-- What stands on the screen after a run. -/
def written (r : Except Failure Output) : String :=
  match r with
  | .ok out => out.text
  | .error _ => ""

def replyDump : String :=
  "[\x7b\"message_id\":\"a\",\"date\":0,\"subject\":\"Plan\"\x7d," ++
    "\x7b\"message_id\":\"b\",\"in_reply_to\":\"a\",\"date\":0,\"subject\":\"Re: Plan\"\x7d]"

def replyInbox : List Envelope :=
  [{ messageId := "a", subject := "Plan" },
    { messageId := "b", inReplyTo := "a", subject := "Re: Plan" }]

/-- What is built from the two envelopes of `replyDump`. -/
def replyForest : Forest :=
  { arena :=
      { containers := #[{ message := some (.slot 0), firstChild := some (.slot 1)
                          lastChild := some (.slot 1) },
          { message := some (.slot 1), parent := some (.slot 0), shownParent := some (.slot 0)
            indentation := 1, showsSubject := false }]
        ids := [("a", .slot 0), ("b", .slot 1)] }
    envelopes := #[{ messageId := "a", subject := "Plan", thread := some (.slot 0) },
      { messageId := "b", inReplyTo := "a", subject := "Re: Plan", thread := some (.slot 1) }]
    roots := [.slot 0]
    order := [.slot 0, .slot 1] }

theorem run_replyInbox : (Build.run (buildOptions { file := some "d.json" } (Settings.ofEnvironment []))
    (.ofEnvelopes replyInbox) .absent).toOption.map (·.forest) = some replyForest := by
  cbv

theorem flatten_trees_replyForest : replyForest.trees.flatten = [.slot 0, .slot 1] := by
  cbv

theorem checked_replyDump : checked { file := some "d.json" } (fun _ => .ok replyDump) =
    .ok (none, none, { inbox := replyInbox, sent := none }) := by
  have hj : Json.read? replyDump = some (.arr [
      .obj [("message_id", .str "a"), ("date", .num 0), ("subject", .str "Plan")],
      .obj [("message_id", .str "b"), ("in_reply_to", .str "a"), ("date", .num 0),
        ("subject", .str "Re: Plan")]]) := by
    cbv
  exact checked_eq_ok rfl (by decide) rfl rfl rfl hj (toOption_eq_some_iff.1 (by decide +kernel)) rfl

end MailThread.Program
