import MailThread.Log.Line
import MailThread.Proofs.Program.Arguments
import MailThread.Proofs.Program.Run

namespace MailThread.Program

def Failure.bare : Failure → Failure
  | tooLong _ => tooLong []
  | f => f

/-- What is seen of a run: what it prints or why it fails, and what the place `s` takes from its
reports. -/
def seen (a : Application) (time buildId : String) (s : Log.Sink) (r : Except Failure Output) :
    Except (Failure × List String) (String × List String) :=
  let logged := List.map fun p => Log.written a time s (.ofReport buildId p)
  match r with
  | .ok out => .ok (out.text, logged out.reports)
  | .error f => .error (f.bare, logged f.reports)

/-- Nobody can tell whether the program is run with the one or the other options. -/
def RunAlike (o o' : Options) : Prop :=
  ∀ env clock read a time buildId s,
    seen a time buildId s (run o env clock read) = seen a time buildId s (run o' env clock read)

def Ordered (given : Option String) : Prop :=
  ∀ t, given = some t → t = "" ∨ ∃ o, RowOrder.Spells t o

/-- The empty values of a request do no harm: they stand behind the file, and give no order of rows. -/
structure Request.Heard (r : Request) (gs : List Group) : Prop where
  file : r.FileFirst gs
  sort : r.sort ≠ some ""
  subsort : r.subsort ≠ some ""

section Alike

variable {a : Application} {time buildId : String} {s : Log.Sink}

/-- A report on behalf of a mailbox without a name does not show it. -/
theorem written_filter (e : Event) (m : Option String) :
    Log.written a time s (.ofReport buildId ⟨e, m.filter (· ≠ "")⟩) =
      Log.written a time s (.ofReport buildId ⟨e, m⟩) := by
  cases m with
  | none => rfl
  | some name =>
    by_cases hname : name = ""
    · subst hname
      simp only [Log.Entry.ofReport]
      cases e.isOfBuild <;> rfl
    · simp [Option.filter_some, hname]

theorem seen_bind_congr {α : Type} {x : Except Failure α} {k l : α → Except Failure Output}
    (h : ∀ y, seen a time buildId s (k y) = seen a time buildId s (l y)) :
    seen a time buildId s (x >>= k) = seen a time buildId s (x >>= l) := by
  cases x with
  | error f => rfl
  | ok y => exact h y

variable {r : Request}

theorem getD_filter_withoutEmpty (r : Request) :
    r.withoutEmpty.options.filter.getD .empty = r.options.filter.getD .empty := by
  simp only [Request.options, Request.withoutEmpty]
  cases r.filter with
  | none => rfl
  | some t =>
    by_cases ht : t = ""
    · subst ht
      rfl
    · simp [Option.filter_some, ht]

theorem map_written_filter (events : List Event) (m : Option String) :
    ((events.map (⟨·, m.filter (· ≠ "")⟩ : Event → Report)).map fun p =>
        Log.written a time s (.ofReport buildId p)) =
      (events.map (⟨·, m⟩ : Event → Report)).map fun p =>
        Log.written a time s (.ofReport buildId p) := by
  rw [List.map_map, List.map_map]
  exact List.map_congr_left fun e _ => written_filter e m

theorem seen_draw_withoutEmpty (env : Environment) (st : ListingStyle) (d : Intake.Bundle) :
    seen a time buildId s (draw r.withoutEmpty.options env st d) =
      seen a time buildId s (draw r.options env st d) := by
  -- The forest and the page do not depend on the mailbox, which is named in the reports alone.
  refine seen_bind_congr fun b => seen_bind_congr fun drawn => ?_
  cases drawn with
  | none =>
    apply congrArg fun logged => Except.error (Failure.tooLong [], logged)
    exact map_written_filter b.events r.mailbox
  | some text =>
    apply congrArg fun logged => Except.ok (text.toString, logged)
    rw [List.map_append, List.map_append]
    exact congrArg (· ++ _) (map_written_filter b.events r.mailbox)

theorem runAlike_withoutEmpty (hsort : r.sort ≠ some "") (hsubsort : r.subsort ≠ some "") :
    RunAlike r.withoutEmpty.options r.options := by
  intro env clock read a time buildId s
  have hsort : r.withoutEmpty.options.sort = r.options.sort :=
    congrArg (Option.map Text.ofString) (Request.filter_eq_self hsort)
  have hsubsort : r.withoutEmpty.options.subsort = r.options.subsort :=
    congrArg (Option.map Text.ofString) (Request.filter_eq_self hsubsort)
  simp only [run_eq, style, getD_filter_withoutEmpty]
  have hchecked : checked r.withoutEmpty.options read = checked r.options read := by
    simp only [checked, hsort, hsubsort]
    rfl
  rw [hchecked]
  exact seen_bind_congr fun c => seen_draw_withoutEmpty env _ c.2.2

/-- What is seen of a run with a check that fails is the error of the first one. -/
theorem seen_eq_error_iff {o : Options} {env : Environment} {clock : Rat}
    {read : String → Except ReadFailure String} {f : Failure} :
    FirstFailure (Fails o read) Check.all f ↔
      seen a time buildId s (run o env clock read) = .error (f, []) ∧
        ∀ before, f ≠ .tooLong before := by
  rw [run_eq_error_iff o env clock read]
  refine and_congr_left fun hshort => ?_
  cases hrun : run o env clock read with
  | ok out => simp [seen]
  | error g =>
    cases g with
    | tooLong before =>
      simp [seen, Failure.bare, (hshort before).symm, (hshort []).symm]
    | _ => simp [seen, Failure.bare, Failure.reports]

end Alike

namespace Request

variable {r : Request} {gs : List Group}

/-- Options that are read from arguments are the ones that are meant if and only if no value is
empty. -/
theorem ofArguments_eq_options_iff (hfile : r.file ≠ "") (hname : r.file ∉ Options.names)
    (hperm : gs.Perm r.groups) :
    Options.ofArguments (gs.flatMap Group.words) = r.options ↔ ∀ k, r.value? k ≠ some "" := by
  rw [ofArguments_of_perm hfile hname hperm]
  constructor
  · intro h k hk
    have hgiven := congrArg k.given h
    rw [Key.given_file, given_options, given_options, value?_withoutEmpty, hk] at hgiven
    cases hgiven
  · intro h
    rw [(findSome?_left?_eq_iff hname hperm).2 (fileFirst_of_perm hperm h), withoutEmpty_eq_self h]
    rfl

theorem Heard.runAlike (h : r.Heard gs) (hfile : r.file ≠ "") (hname : r.file ∉ Options.names)
    (hperm : gs.Perm r.groups) :
    RunAlike (Options.ofArguments (gs.flatMap Group.words)) r.options := by
  rw [ofArguments_of_perm hfile hname hperm, (findSome?_left?_eq_iff hname hperm).2 h.file]
  exact runAlike_withoutEmpty h.sort h.subsort

theorem not_spells_empty (o : RowOrder) : ¬ RowOrder.Spells (Text.ofString "") o := by
  rw [← RowOrder.ofText?_eq_some_iff, show RowOrder.ofText? (Text.ofString "") = none by decide]
  exact nofun

theorem badOrder_of_empty {given : Option String} (h : given = some "") (option : String) :
    BadOrder option (given.map Text.ofString)
      (.known (.badFormat option "date|subject[:asc|desc]" (some (.str "")))) :=
  ⟨Text.ofString "", congrArg (Option.map Text.ofString) h, not_spells_empty, rfl⟩

theorem not_badOrder_of_ordered {given : Option String} (h : Ordered given)
    (hempty : given ≠ some "") (option : String) (f : Failure) :
    ¬ BadOrder option (given.map Text.ofString) f := by
  rintro ⟨_, hgiven, hnone, _⟩
  obtain ⟨t, ht, rfl⟩ := Option.map_eq_some_iff.1 hgiven
  obtain rfl | ⟨o, ho⟩ := h t ht
  · exact hempty ht
  · exact hnone o ho

theorem badFormat_inj {option option' expected : String} {t t' : Text}
    (h : Failure.known (.badFormat option expected (some (.str t))) =
      .known (.badFormat option' expected (some (.str t')))) : option = option' ∧ t = t' := by
  simp only [ThreadError.badFormat, Failure.known.injEq, ThreadError.validation.injEq,
    List.cons.injEq, Issue.mk.injEq, Option.some.injEq, Json.str.injEq] at h
  exact ⟨h.2.1.1.1, h.2.1.1.2.2⟩

/-- An order is refused only where it is given. -/
theorem given_of_fails {o : Options} {read : String → Except ReadFailure String} {c : Check}
    {option : String} {t : Text}
    (hc : Fails o read c (.known (.badFormat option "date|subject[:asc|desc]" (some (.str t))))) :
    (option = "sort" ∧ o.sort = some t) ∨ (option = "subsort" ∧ o.subsort = some t) := by
  have hcode : "VALID_002" = c.code := code_of_fails hc
  cases c with
  | sort =>
    obtain ⟨t', ht, _, hf⟩ := hc
    obtain ⟨hoption, rfl⟩ := badFormat_inj hf
    exact .inl ⟨hoption, ht⟩
  | subsort =>
    obtain ⟨t', ht, _, hf⟩ := hc
    obtain ⟨hoption, rfl⟩ := badFormat_inj hf
    exact .inr ⟨hoption, ht⟩
  | _ => exact absurd hcode (by decide)

theorem RunAlike.exists_fails {o o' : Options} {f : Failure} (h : RunAlike o o')
    (hf : FirstFailure (Fails o' fun _ => .error .missing) Check.all f) :
    ∃ c, Fails o (fun _ => .error .missing) c f := by
  have hseen := h [] 0 (fun _ => .error .missing) default "" "" .console
  obtain ⟨hfailed, hshort⟩ := seen_eq_error_iff.1 hf
  obtain ⟨c, _, hc⟩ := (seen_eq_error_iff.2 ⟨hseen.trans hfailed, hshort⟩).exists_fails
  exact ⟨c, hc⟩

theorem heard_of_runAlike (hsort : Ordered r.sort) (hsubsort : Ordered r.subsort)
    (hfile : r.file ≠ "") (hname : r.file ∉ Options.names) (hperm : gs.Perm r.groups)
    (h : RunAlike (Options.ofArguments (gs.flatMap Group.words)) r.options) : r.Heard gs := by
  rw [ofArguments_of_perm hfile hname hperm] at h
  have hpath (g : Failure) : ¬ Fails r.options (fun _ => .error .missing) .file g := by
    simp [Fails, options, hfile]
  have hsorted : r.sort ≠ some "" := by
    intro hempty
    obtain ⟨c, hc⟩ := RunAlike.exists_fails h (.later hpath
      (.here (badOrder_of_empty hempty "sort")))
    obtain ⟨_, hc⟩ | ⟨hc, _⟩ := given_of_fails hc
    · simp [options, withoutEmpty, hempty] at hc
    · exact absurd hc (by decide)
  have hsortpass := not_badOrder_of_ordered hsort hsorted "sort"
  have hsubsorted : r.subsort ≠ some "" := by
    intro hempty
    obtain ⟨c, hc⟩ := RunAlike.exists_fails h (.later hpath (.later hsortpass
      (.here (badOrder_of_empty hempty "subsort"))))
    obtain ⟨hc, _⟩ | ⟨_, hc⟩ := given_of_fails hc
    · exact absurd hc (by decide)
    · simp [options, withoutEmpty, hempty] at hc
  have hsubsortpass := not_badOrder_of_ordered hsubsort hsubsorted "subsort"
  obtain ⟨c, hc⟩ := RunAlike.exists_fails h (.later hpath (.later hsortpass (.later hsubsortpass
    (.here ⟨r.file, rfl, rfl, rfl⟩))))
  have hcode : "INPUT_001" = c.code := code_of_fails hc
  cases c with
  | found =>
    obtain ⟨p, hp, _, hf⟩ := hc
    simp only [ThreadError.sourceMissing, Failure.known.injEq, ThreadError.input.injEq] at hf
    refine ⟨(findSome?_left?_eq_iff hname hperm).1 ?_, hsorted, hsubsorted⟩
    exact hf.2.2.1 ▸ hp
  | _ => exact absurd hcode (by decide)

/-- Arguments that say what a request has in mind, in any order, give its options if and only if no
value is empty. The program runs as with these options if every empty value stands behind the file
and none is meant for an order of rows; and only then, where the other orders can be read. -/
theorem ofArguments_arranged (r : Request) (gs : List Group) (hfile : r.file ≠ "")
    (hname : r.file ∉ Options.names) (hperm : gs.Perm r.groups) :
    (Options.ofArguments (gs.flatMap Group.words) = r.options ↔ ∀ k, r.value? k ≠ some "") ∧
      (r.Heard gs → RunAlike (Options.ofArguments (gs.flatMap Group.words)) r.options) ∧
      (Ordered r.sort → Ordered r.subsort →
        RunAlike (Options.ofArguments (gs.flatMap Group.words)) r.options → r.Heard gs) :=
  ⟨ofArguments_eq_options_iff hfile hname hperm, fun h => h.runAlike hfile hname hperm,
    fun hsort hsubsort => heard_of_runAlike hsort hsubsort hfile hname hperm⟩

/-- A mailbox that is named like an option, and an empty filter behind the file: other options are
read than those that are meant, and nobody can tell. -/
theorem ofArguments_arranged_behind :
    let r : Request :=
      { file := "d.json", conversations := true, mailbox := some "--sort",
        sort := some "date:asc", filter := some "" }
    let gs := [Group.value .sort "date:asc", .value .mailbox "--sort", .file "d.json",
      .value .filter "", .conversations]
    let args := ["--sort", "date:asc", "--mailbox", "--sort", "d.json", "--filter", "",
      "--conversations"]
    gs.Perm r.groups ∧ gs.flatMap Group.words = args ∧ r.Heard gs ∧
      Options.ofArguments args ≠ r.options ∧ RunAlike (Options.ofArguments args) r.options := by
  intro r gs args
  have hperm : gs.Perm r.groups := by decide
  have hheard : r.Heard gs := by
    refine ⟨⟨[.value .sort "date:asc", .value .mailbox "--sort"],
      [.value .filter "", .conversations], rfl, ?_⟩, by decide, by decide⟩
    rintro g hg ⟨k, rfl⟩
    simp at hg
  obtain ⟨hoptions, hruns, _⟩ := ofArguments_arranged r gs (by decide) (by decide) hperm
  exact ⟨hperm, rfl, hheard, fun h => hoptions.1 h .filter rfl, hruns hheard⟩

/-- In front of the file, the name of an option with an empty value is taken for the file. -/
theorem ofArguments_arranged_ahead :
    let read : String → Except ReadFailure String :=
      fun p => if p = "d.json" then .ok "[]" else .error .missing
    [Group.value .filter "", .file "d.json"].Perm
        (Request.groups { file := "d.json", filter := some "" }) ∧
      run (.ofArguments ["--filter", "", "d.json"]) [] 0 read =
        .error (.known (.sourceMissing "--filter")) ∧
      ∃ out, run { file := some "d.json", filter := some "" } [] 0 read = .ok out := by
  intro read
  have hprints : (run { file := some "d.json", filter := some "" } [] 0 read).toOption.isSome := by
    cbv
  refine ⟨by decide, rfl, ?_⟩
  cases hrun : run { file := some "d.json", filter := some "" } [] 0 read with
  | ok out => exact ⟨out, rfl⟩
  | error f =>
    rw [hrun] at hprints
    cases hprints

end Request

end MailThread.Program
