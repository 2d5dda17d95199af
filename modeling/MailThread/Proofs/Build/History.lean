import MailThread.Proofs.Build.Sent
import Mathlib

namespace MailThread

open Assembly Assembling

namespace Mailbox

/-- The messages of a mailbox, without the copies of earlier builds and without back-references. -/
def own (m : Mailbox) : List Envelope :=
  (m.entries.toList.filter fun e => !e.isCopy).map fun e => e.envelope.untied

theorem own_eq_withoutCopies (m : Mailbox) :
    m.own = m.withoutCopies.envelopes.toList.map Envelope.untied := by
  simp [own, withoutCopies_eq, envelopes]

theorem own_eq_contents (m : Mailbox) :
    m.own = (m.contents.filter fun e => !e.2).map Prod.fst := by
  simp [own, contents, List.filter_map, Function.comp_def]

theorem own_ofEnvelopes (m : Mailbox) : (ofEnvelopes m.own).own = m.own := by
  rw [own_eq_withoutCopies, envelopes_ofEnvelopes, List.toList_toArray, own, List.map_map]
  rfl

end Mailbox

namespace Build

variable {o : BuildOptions} {m m' : Mailbox} {sent : SentFolder} {b b' : Build} {r s : Assembly}

/-- What a build gives, its reports aside. -/
def outcome (b : Build) : Forest × Mailbox × BuildCounts := (b.forest, b.mailbox, b.counts)

theorem forM_receive_untied (es : List Envelope) :
    (es.map Envelope.untied).forM receive = es.forM receive := by
  simp only [List.forM_eq_forM, List.forM_map]
  rfl

theorem assemble_congr (h : m'.own = m.own) (merges : Bool) :
    assemble merges m'.withoutCopies sent = assemble merges m.withoutCopies sent := by
  unfold assemble
  rw [← forM_receive_untied, ← forM_receive_untied m.withoutCopies.envelopes.toList,
    ← Mailbox.own_eq_withoutCopies, ← Mailbox.own_eq_withoutCopies, h]

theorem run_congr (o : BuildOptions) (h : m'.own = m.own) (sent : SentFolder) :
    (run o m' sent).map outcome = (run o m sent).map outcome := by
  unfold run
  simp only [assemble_congr h]
  cases finish ((assemble o.mergeSent m.withoutCopies sent).run {}) with
  | error fault => rfl
  | ok s =>
    simp only [ok_bind]
    cases s.arena.roots with
    | error fault => rfl
    | ok roots =>
      simp only [ok_bind]
      -- reports are all that is left to differ
      rcases Forest.layOut _ o.suppressRepeated with ⟨f, _ | fault⟩
      · simp only [pure_bind]
        by_cases hv : o.verify = true
        · simp only [if_pos hv]
          cases auditEvents f <;> rfl
        · simp only [if_neg hv]
          rfl
      · rfl

theorem run_again (h : m'.own = m.own) (hb : run o m sent = .ok b) :
    ∃ b', run o m' sent = .ok b' ∧ b'.outcome = b.outcome := by
  have hrun := run_congr o h sent
  rw [hb] at hrun
  cases hb' : run o m' sent with
  | error fault =>
    rw [hb'] at hrun
    cases hrun
  | ok b' =>
    rw [hb'] at hrun
    exact ⟨b', rfl, Except.ok.inj hrun⟩

theorem Made.own_eq (h : Made o m sent b r s) : b.mailbox.own = m.own := by
  rw [Mailbox.own_eq_contents, h.contents, List.filter_append, List.map_append,
    Mailbox.own_eq_withoutCopies]
  simp [List.filter_map, Function.comp_def]

end Build

/-- Mailboxes by their names. -/
abbrev Mailboxes := String → Mailbox

/-- An order to build the mailbox `box`, with another mailbox as its sent folder. -/
structure Order where
  box : String
  sent : Option String := none
  options : BuildOptions := {}

namespace Mailboxes

variable {ms ms' : Mailboxes} {q : Order} {qs : List Order} {b : Build}

def sentFolder (ms : Mailboxes) (q : Order) : SentFolder :=
  match q.sent with
  | none => .absent
  | some name => if name = q.box then .own else .folder (ms name).envelopes.toList

/-- Builds what the order asks for, and puts back the mailbox as the build has left it. -/
def build (ms : Mailboxes) (q : Order) : Except Fault (Build × Mailboxes) := do
  let b ← Build.run q.options (ms q.box) (ms.sentFolder q)
  return (b, Function.update ms q.box b.mailbox)

/-- The mailboxes after a history of builds. -/
def buildAll (ms : Mailboxes) : List Order → Except Fault Mailboxes
  | [] => .ok ms
  | q :: qs => do
    let (_, ms) ← ms.build q
    ms.buildAll qs

theorem build_eq_ok (hb : Build.run q.options (ms q.box) (ms.sentFolder q) = .ok b) :
    ms.build q = .ok (b, Function.update ms q.box b.mailbox) := by
  rw [build, hb]
  rfl

theorem run_of_build (h : ms.build q = .ok (b, ms')) :
    Build.run q.options (ms q.box) (ms.sentFolder q) = .ok b ∧
      ms' = Function.update ms q.box b.mailbox := by
  unfold build at h
  cases hb : Build.run q.options (ms q.box) (ms.sentFolder q) with
  | error fault =>
    rw [hb] at h
    cases h
  | ok b' =>
    rw [hb] at h
    cases h
    exact ⟨rfl, rfl⟩

theorem sentFolder_ne_own (h : q.sent ≠ some q.box) : ms.sentFolder q ≠ .own := by
  unfold sentFolder
  cases hs : q.sent with
  | none => exact nofun
  | some name =>
    have hne : name ≠ q.box := fun e => h (e ▸ hs)
    simp only [if_neg hne]
    exact nofun

theorem sentFolder_congr (h : ∀ name, q.sent = some name → ms' name = ms name) :
    ms'.sentFolder q = ms.sentFolder q := by
  unfold sentFolder
  cases hs : q.sent with
  | none => rfl
  | some name => simp only [h name hs]

/-- A mailbox that is built keeps its messages, and any other one stays as it is. -/
structure Kept (ms ms' : Mailboxes) (built : List String) : Prop where
  own : ∀ name, (ms' name).own = (ms name).own
  other : ∀ name ∉ built, ms' name = ms name

theorem kept_of_build (h : ms.build q = .ok (b, ms')) : ms.Kept ms' [q.box] := by
  obtain ⟨hb, rfl⟩ := run_of_build h
  obtain ⟨r, s, hmade⟩ := Build.made_of_run hb
  refine ⟨fun name => ?_, fun name hname => ?_⟩
  · by_cases hn : name = q.box
    · rw [hn, Function.update_self, hmade.own_eq]
    · rw [Function.update_of_ne hn]
  · exact Function.update_of_ne (mt List.mem_singleton.2 hname) _ _

theorem kept_of_buildAll (h : ms.buildAll qs = .ok ms') : ms.Kept ms' (qs.map (·.box)) := by
  induction qs generalizing ms with
  | nil =>
    cases h
    exact ⟨fun _ => rfl, fun _ _ => rfl⟩
  | cons q qs ih =>
    unfold buildAll at h
    cases hq : ms.build q with
    | error fault =>
      rw [hq] at h
      cases h
    | ok first =>
      obtain ⟨b, mid⟩ := first
      rw [hq] at h
      have hfirst := kept_of_build hq
      have hrest := ih h
      refine ⟨fun name => (hrest.own name).trans (hfirst.own name), fun name hname => ?_⟩
      rw [List.map_cons, List.mem_cons, not_or] at hname
      rw [hrest.other name hname.2, hfirst.other name (by simpa using hname.1)]

theorem buildAll_eq_ok (ms : Mailboxes) (h : ∀ q ∈ qs, q.sent ≠ some q.box) :
    ∃ ms', ms.buildAll qs = .ok ms' := by
  induction qs generalizing ms with
  | nil => exact ⟨ms, rfl⟩
  | cons q qs ih =>
    obtain ⟨b, _, _, hb, _⟩ := Build.run_eq_ok q.options (ms q.box) (ms.sentFolder q)
      (sentFolder_ne_own (h q List.mem_cons_self))
    obtain ⟨ms', hms'⟩ := ih (Function.update ms q.box b.mailbox) fun q' hq' =>
      h q' (List.mem_cons_of_mem q hq')
    refine ⟨ms', ?_⟩
    rw [buildAll, build_eq_ok hb]
    exact hms'

theorem build_again (hb : ms.build q = .ok (b, ms')) {ms₁ : Mailboxes}
    (hown : (ms₁ q.box).own = (ms q.box).own) (hsent : ms₁.sentFolder q = ms.sentFolder q) :
    ∃ b₁ ms₂, ms₁.build q = .ok (b₁, ms₂) ∧ b₁.outcome = b.outcome := by
  obtain ⟨b₁, hb₁, houtcome⟩ := Build.run_again hown (run_of_build hb).1
  rw [← hsent] at hb₁
  exact ⟨b₁, _, build_eq_ok hb₁, houtcome⟩

/-- A build leaves the messages of its mailbox in their order, and after them the copies that it
takes over from another mailbox; that one and all others stay as they are. The outcome is the one of
a fresh mailbox with these messages, and so it is again after any history of builds that spares the
sent folder. -/
theorem build_history (ms : Mailboxes) (q : Order) (hq : q.sent ≠ some q.box) :
    ∃ b ms', ms.build q = .ok (b, ms') ∧
      (∀ name, name ≠ q.box → ms' name = ms name) ∧
      (ms' q.box).contents = ((ms q.box).own.map fun e => (e, false)) ++
        (Build.joined q.options (ms q.box) (ms.sentFolder q)).map (fun s => (s.2.untied, true)) ∧
      (∃ fresh, Build.run q.options (.ofEnvelopes (ms q.box).own) (ms.sentFolder q) = .ok fresh ∧
        fresh.outcome = b.outcome) ∧
      ∀ qs : List Order, (∀ q' ∈ qs, q.sent ≠ some q'.box) →
        ((∀ q' ∈ qs, q'.sent ≠ some q'.box) → ∃ ms'', ms'.buildAll qs = .ok ms'') ∧
        ∀ ms'', ms'.buildAll qs = .ok ms'' →
          ∃ b' ms₃, ms''.build q = .ok (b', ms₃) ∧ b'.outcome = b.outcome := by
  obtain ⟨b, r, s, hb, hmade⟩ :=
    Build.run_eq_ok q.options (ms q.box) (ms.sentFolder q) (sentFolder_ne_own hq)
  have hbuild := build_eq_ok hb
  have hkept := kept_of_build hbuild
  refine ⟨b, _, hbuild, fun name hname => hkept.other name (by simpa using hname), ?_,
    Build.run_again (Mailbox.own_ofEnvelopes (ms q.box)) hb,
    fun qs hspared => ⟨fun hqs => buildAll_eq_ok _ hqs, fun ms'' hms'' => ?_⟩⟩
  · rw [Function.update_self, hmade.contents, Mailbox.own_eq_withoutCopies, List.map_map]
    rfl
  · have hhistory := kept_of_buildAll hms''
    refine build_again hbuild ((hhistory.own q.box).trans (hkept.own q.box))
      (sentFolder_congr fun name hname => ?_)
    rw [hhistory.other name fun hmem => ?_, hkept.other name fun hmem => ?_]
    · exact hq (hname.trans (congrArg some (List.mem_singleton.1 hmem)))
    · obtain ⟨q', hq', rfl⟩ := List.mem_map.1 hmem
      exact hspared q' hq' hname

/-- A mailbox with a copy of an earlier build in front and a stale back-reference, and two sent
folders. -/
def desk : Mailboxes
  | "inbox" => ⟨#[{ envelope := { messageId := "s", inReplyTo := "a" }, isCopy := true },
      { envelope := { messageId := "a", date := 1, thread := some (.slot 7) } }]⟩
  | "sent" => .ofEnvelopes [{ messageId := "b", inReplyTo := "a", date := 2 }]
  | "archive" => .ofEnvelopes [{ inReplyTo := "a", date := 5 }, { messageId := "z" }]
  | _ => .ofEnvelopes []

/-- A build with the archive as sent folder, and one of the archive itself, come in between. -/
theorem build_history_desk :
    ∃ b built later again last,
      desk.build { box := "inbox", sent := some "sent" } = .ok (b, built) ∧
      (built "inbox").contents = [({ messageId := "a", date := 1 }, false),
        ({ messageId := "b", inReplyTo := "a", date := 2 }, true)] ∧
      built "sent" = desk "sent" ∧
      built.buildAll [{ box := "inbox", sent := some "archive" }, { box := "archive" }] =
        .ok later ∧
      later.build { box := "inbox", sent := some "sent" } = .ok (again, last) ∧
      again.outcome = b.outcome := by
  obtain ⟨b, built, hbuild, hother, hcontents, _, hagain⟩ :=
    build_history desk { box := "inbox", sent := some "sent" } (by decide)
  obtain ⟨hok, hsame⟩ := hagain [{ box := "inbox", sent := some "archive" }, { box := "archive" }]
    (by decide)
  obtain ⟨later, hlater⟩ := hok (by decide)
  obtain ⟨again, last, hlast, houtcome⟩ := hsame later hlater
  refine ⟨b, built, later, again, last, hbuild, hcontents.trans ?_, hother "sent" (by decide),
    hlater, hlast, houtcome⟩
  cbv

end Mailboxes

end MailThread
