import MailThread.Program

namespace MailThread.Program

/-- Options that take the argument behind them as their value. -/
inductive Key where
  | mailbox
  | sort
  | subsort
  | filter
deriving DecidableEq

namespace Key

def all : List Key := [mailbox, sort, subsort, filter]

def flag : Key → String
  | mailbox => "--mailbox"
  | sort => "--sort"
  | subsort => "--subsort"
  | filter => "--filter"

def set (o : Options) (v : String) : Key → Options
  | mailbox => { o with mailbox := some v }
  | sort => { o with sort := some v }
  | subsort => { o with subsort := some v }
  | filter => { o with filter := some v }

def given (o : Options) : Key → Option Text
  | mailbox => o.mailbox.map Text.ofString
  | sort => o.sort
  | subsort => o.subsort
  | filter => o.filter

variable {o : Options} {k l : Key} {v w : String}

theorem given_file (k : Key) (file : Option String) : k.given { o with file } = k.given o := by
  cases k <;> rfl

theorem mem_all (k : Key) : k ∈ all := by
  cases k <;> decide

theorem flag_ne_empty (k : Key) : k.flag ≠ "" := by
  cases k <;> decide

theorem set_comm (h : k ≠ l) : k.set (l.set o w) v = l.set (k.set o v) w := by
  cases k <;> cases l <;> first | rfl | exact absurd rfl h

end Key

def Options.names : List String := "--conversations" :: Key.all.map Key.flag

/-- Arguments that belong together. -/
inductive Group where
  | file (name : String)
  | conversations
  | value (key : Key) (v : String)
deriving DecidableEq

namespace Group

def words : Group → List String
  | file name => [name]
  | conversations => ["--conversations"]
  | value k v => [k.flag, v]

def Bare (g : Group) : Prop := ∃ k, g = value k ""

def setting (o : Options) : Group → Options
  | file _ => o
  | conversations => { o with conversations := true }
  | value k v => if v = "" then o else k.set o v

def left? : Group → Option String
  | file name => some name
  | conversations => none
  | value k v => if v = "" then some k.flag else none

def read (o : Options) (g : Group) : Options :=
  match g.left? with
  | some name => (g.setting o).withFile name
  | none => g.setting o

def Named (g : Group) : Prop := ∀ name, g = file name → name ≠ "" ∧ name ∉ Options.names

end Group

namespace Options

variable {o : Options} {a b name : String} {rest : List String} {g : Group} {gs : List Group}

theorem withFile_of_none (h : o.file = none) : o.withFile a = { o with file := some a } := by
  simp [withFile, h]

theorem withFile_of_some (h : o.file = some name) (hname : name ≠ "") : o.withFile a = o := by
  simp [withFile, h, hname]

theorem file_withFile (ha : a ≠ "") : ∃ name, (o.withFile a).file = some name ∧ name ≠ "" := by
  unfold withFile
  split
  · exact ⟨a, rfl, ha⟩
  · rename_i h
    cases hfile : o.file with
    | none => simp [hfile] at h
    | some name => exact ⟨name, rfl, by simpa [hfile] using h⟩

theorem withValue?_flag (k : Key) (v : String) : o.withValue? k.flag v = some (k.set o v) := by
  cases k <;> rfl

theorem withValue?_of_notMem (h : a ∉ names) : o.withValue? a b = none := by
  unfold withValue?
  split <;> first | rfl | exact absurd (by decide) h

theorem readArguments_conversations :
    readArguments o ("--conversations" :: rest) =
      readArguments { o with conversations := true } rest := by
  cases rest <;> simp [readArguments]

theorem readArguments_of_notMem (h : a ∉ names) :
    readArguments o (a :: rest) = readArguments (o.withFile a) rest := by
  have ha : a ≠ "--conversations" := by
    rintro rfl
    exact h List.mem_cons_self
  cases rest with
  | nil => simp [readArguments, ha]
  | cons b rest => simp [readArguments, ha, withValue?_of_notMem h]

theorem readArguments_value (k : Key) (v : String) :
    readArguments o (k.flag :: v :: rest) =
      if v = "" then readArguments (o.withFile k.flag) (v :: rest)
      else readArguments (k.set o v) rest := by
  have hk : k.flag ≠ "--conversations" := by
    cases k <;> decide
  by_cases hv : v = "" <;> simp [readArguments, hk, hv, withValue?_flag]

theorem readArguments_words (h : g.Named) :
    readArguments o (g.words ++ rest) = readArguments (g.read o) rest := by
  cases g with
  | file name => exact readArguments_of_notMem (h name rfl).2
  | conversations => exact readArguments_conversations
  | value k v =>
    refine (readArguments_value k v).trans ?_
    by_cases hv : v = ""
    · subst hv
      obtain ⟨name, hfile, hname⟩ := file_withFile (o := o) k.flag_ne_empty
      rw [if_pos rfl, readArguments_of_notMem (by decide), withFile_of_some hfile hname]
      rfl
    · simp only [if_neg hv, Group.read, Group.left?, Group.setting]
      rfl

theorem readArguments_flatMap (h : ∀ g ∈ gs, g.Named) (o : Options) :
    readArguments o (gs.flatMap Group.words) = gs.foldl Group.read o := by
  induction gs generalizing o with
  | nil => rfl
  | cons g gs ih =>
    obtain ⟨hg, hgs⟩ := List.forall_mem_cons.1 h
    rw [List.flatMap_cons, readArguments_words hg, ih hgs, List.foldl_cons]

end Options

namespace Group

variable {o : Options} {file : Option String} {g h : Group} {gs hs : List Group} {name : String}

theorem left?_ne_empty (hg : g.Named) (h : g.left? = some name) : name ≠ "" := by
  cases g with
  | file name' =>
    cases h
    exact (hg name rfl).1
  | conversations => cases h
  | value k v =>
    simp only [left?, Option.ite_none_right_eq_some, Option.some.injEq] at h
    exact h.2 ▸ k.flag_ne_empty

theorem setting_file : g.setting { o with file } = { g.setting o with file } := by
  cases g with
  | file name => rfl
  | conversations => rfl
  | value k v =>
    simp only [setting]
    split
    · rfl
    · cases k <;> rfl

theorem read_file (hfile : file ≠ some "") :
    g.read { o with file } = { g.setting o with file := file.or g.left? } := by
  unfold read
  rw [setting_file]
  cases hleft : g.left? with
  | none => rw [Option.or_none]
  | some name =>
    cases file with
    | none => exact Options.withFile_of_none rfl
    | some name' => exact Options.withFile_of_some rfl fun h => hfile (h ▸ rfl)

theorem foldl_read (hgs : ∀ g ∈ gs, g.Named) (hfile : file ≠ some "") :
    gs.foldl read { o with file } =
      { gs.foldl setting o with file := file.or (gs.findSome? left?) } := by
  induction gs generalizing o file with
  | nil => rw [List.findSome?_nil, Option.or_none, List.foldl_nil, List.foldl_nil]
  | cons g gs ih =>
    obtain ⟨hg, hgs⟩ := List.forall_mem_cons.1 hgs
    have hleft : file.or g.left? ≠ some "" := by
      cases file with
      | some name => exact hfile
      | none => exact fun h => left?_ne_empty hg h rfl
    rw [List.foldl_cons, read_file hfile, ih hgs hleft, List.foldl_cons, List.findSome?_cons]
    cases file with
    | some name => rfl
    | none => cases g.left? <;> rfl

theorem setting_conversations :
    g.setting { o with conversations := true } = { g.setting o with conversations := true } := by
  cases g with
  | file name => rfl
  | conversations => rfl
  | value k v =>
    simp only [setting]
    split
    · rfl
    · cases k <;> rfl

theorem setting_comm (hsame : ∀ k v w, g = value k v → h = value k w → v = w) :
    h.setting (g.setting o) = g.setting (h.setting o) := by
  cases g with
  | file name => rfl
  | conversations => exact setting_conversations
  | value k v =>
    cases h with
    | file name => rfl
    | conversations => exact setting_conversations.symm
    | value l w =>
      by_cases hkl : k = l
      · subst hkl
        rw [hsame k v w rfl rfl]
      · simp only [setting]
        split
        · rfl
        · split
          · rfl
          · exact Key.set_comm (Ne.symm hkl)

theorem foldl_setting_of_perm (hperm : gs.Perm hs)
    (hsame : ∀ k v w, value k v ∈ gs → value k w ∈ gs → v = w) (o : Options) :
    gs.foldl setting o = hs.foldl setting o := by
  apply hperm.foldl_eq'
  intro g hg h hh o
  exact setting_comm fun k v w hv hw => hsame k v w (hv ▸ hg) (hw ▸ hh)

end Group

/-- What a user has in mind when writing arguments. -/
structure Request where
  file : String
  conversations : Bool := false
  mailbox : Option String := none
  sort : Option String := none
  subsort : Option String := none
  filter : Option String := none

namespace Request

def value? (r : Request) : Key → Option String
  | .mailbox => r.mailbox
  | .sort => r.sort
  | .subsort => r.subsort
  | .filter => r.filter

/-- The options that are meant. -/
def options (r : Request) : Options :=
  { file := some r.file
    conversations := r.conversations
    mailbox := r.mailbox
    sort := r.sort.map Text.ofString
    subsort := r.subsort.map Text.ofString
    filter := r.filter.map Text.ofString }

/-- The arguments that say it, in one order of many. -/
def groups (r : Request) : List Group :=
  .file r.file :: ((if r.conversations then [.conversations] else []) ++
    Key.all.flatMap fun k => ((r.value? k).map (.value k)).toList)

def withoutEmpty (r : Request) : Request :=
  { r with
    mailbox := r.mailbox.filter (· ≠ "")
    sort := r.sort.filter (· ≠ "")
    subsort := r.subsort.filter (· ≠ "")
    filter := r.filter.filter (· ≠ "") }

def FileFirst (r : Request) (gs : List Group) : Prop :=
  ∃ before after, gs = before ++ .file r.file :: after ∧ ∀ g ∈ before, ¬ g.Bare

variable {r : Request} {gs : List Group} {g : Group} {k : Key} {v name : String}

theorem mem_groups : g ∈ r.groups ↔
    g = .file r.file ∨ (r.conversations = true ∧ g = .conversations) ∨
      ∃ k v, r.value? k = some v ∧ g = .value k v := by
  simp only [groups, List.mem_cons, List.mem_append, List.mem_ite_nil_right, List.not_mem_nil,
    or_false, List.mem_flatMap, Key.mem_all, true_and, Option.mem_toList, Option.map_eq_some_iff,
    eq_comm (a := g)]

theorem value_mem_groups : .value k v ∈ r.groups ↔ r.value? k = some v := by
  simp [mem_groups]

theorem file_mem_groups : .file name ∈ r.groups ↔ name = r.file := by
  simp [mem_groups]

theorem given_options (r : Request) (k : Key) :
    k.given r.options = (r.value? k).map Text.ofString := by
  cases k <;> rfl

theorem value?_withoutEmpty (r : Request) (k : Key) :
    r.withoutEmpty.value? k = (r.value? k).filter (· ≠ "") := by
  cases k <;> rfl

theorem filter_eq_self {given : Option String} (h : given ≠ some "") :
    given.filter (· ≠ "") = given := by
  cases given with
  | none => rfl
  | some v =>
    have hv : v ≠ "" := fun hv => h (congrArg some hv)
    simp [Option.filter_some, hv]

theorem withoutEmpty_eq_self (h : ∀ k, r.value? k ≠ some "") : r.withoutEmpty = r := by
  obtain ⟨file, conversations, mailbox, sort, subsort, filter⟩ := r
  simp only [withoutEmpty, mk.injEq, true_and]
  exact ⟨filter_eq_self (h .mailbox), filter_eq_self (h .sort), filter_eq_self (h .subsort),
    filter_eq_self (h .filter)⟩

theorem foldl_groups (r : Request) :
    r.groups.foldl Group.setting {} = { r.withoutEmpty.options with file := none } := by
  have hgiven (k : Key) (o : Options) :
      ((r.value? k).map (Group.value k)).toList.foldl Group.setting o =
        (r.withoutEmpty.value? k).elim o (k.set o) := by
    rw [value?_withoutEmpty]
    cases r.value? k with
    | none => rfl
    | some v => by_cases hv : v = "" <;> simp [Group.setting, Option.filter_some, hv]
  have hconversations :
      (if r.conversations then [Group.conversations] else []).foldl Group.setting {} =
        { conversations := r.conversations } := by
    cases r.conversations <;> rfl
  simp only [groups, List.foldl_cons, List.foldl_append, List.foldl_flatMap, hgiven]
  rw [show Group.setting {} (.file r.file) = {} from rfl, hconversations]
  simp only [options, Key.all, List.foldl_cons, List.foldl_nil, value?]
  cases r.withoutEmpty.mailbox <;> cases r.withoutEmpty.sort <;>
    cases r.withoutEmpty.subsort <;> cases r.withoutEmpty.filter <;> rfl

theorem value_inj_of_perm (hperm : gs.Perm r.groups) {v w : String} (hv : .value k v ∈ gs)
    (hw : .value k w ∈ gs) : v = w := by
  rw [hperm.mem_iff, value_mem_groups] at hv hw
  exact Option.some.inj (hv.symm.trans hw)

theorem named_of_perm (hfile : r.file ≠ "") (hname : r.file ∉ Options.names)
    (hperm : gs.Perm r.groups) : ∀ g ∈ gs, g.Named := by
  rintro g hg name rfl
  obtain rfl := file_mem_groups.1 (hperm.mem_iff.1 hg)
  exact ⟨hfile, hname⟩

theorem fileFirst_of_perm (hperm : gs.Perm r.groups) (h : ∀ k, r.value? k ≠ some "") :
    r.FileFirst gs := by
  obtain ⟨before, after, rfl⟩ := List.append_of_mem (hperm.mem_iff.2 (file_mem_groups.2 rfl))
  refine ⟨before, after, rfl, ?_⟩
  rintro _ hg ⟨k, rfl⟩
  exact h k (value_mem_groups.1 (hperm.mem_iff.1 (List.mem_append_left _ hg)))

theorem findSome?_left?_eq_iff (hname : r.file ∉ Options.names) (hperm : gs.Perm r.groups) :
    gs.findSome? Group.left? = some r.file ↔ r.FileFirst gs := by
  constructor
  · intro h
    obtain ⟨before, g, after, hgs, hg, hbefore⟩ := List.findSome?_eq_some_iff.1 h
    have hgfile : g = .file r.file := by
      cases g with
      | file name => exact congrArg Group.file (Option.some.inj hg)
      | conversations => cases hg
      | value k v =>
        simp only [Group.left?, Option.ite_none_right_eq_some, Option.some.injEq] at hg
        refine absurd ?_ hname
        rw [← hg.2]
        exact List.mem_cons_of_mem _ (List.mem_map_of_mem k.mem_all)
    refine ⟨before, after, hgfile ▸ hgs, ?_⟩
    rintro _ hmem ⟨k, rfl⟩
    cases hbefore _ hmem
  · rintro ⟨before, after, rfl, hbefore⟩
    rw [List.findSome?_append, List.findSome?_cons]
    cases hleft : before.findSome? Group.left? with
    | none => rfl
    | some name =>
      obtain ⟨g, hg, hgleft⟩ := List.exists_of_findSome?_eq_some hleft
      cases g with
      | file name' =>
        cases hgleft
        exact congrArg some
          (file_mem_groups.1 (hperm.mem_iff.1 (List.mem_append_left _ hg)))
      | conversations => cases hgleft
      | value k v =>
        simp only [Group.left?, Option.ite_none_right_eq_some] at hgleft
        exact absurd ⟨k, by rw [hgleft.1]⟩ (hbefore _ hg)

/-- What is read from arguments in any order. -/
theorem ofArguments_of_perm (hfile : r.file ≠ "") (hname : r.file ∉ Options.names)
    (hperm : gs.Perm r.groups) :
    Options.ofArguments (gs.flatMap Group.words) =
      { r.withoutEmpty.options with file := gs.findSome? Group.left? } := by
  have hnamed := named_of_perm hfile hname hperm
  calc
    Options.ofArguments (gs.flatMap Group.words) = gs.foldl Group.read {} :=
      Options.readArguments_flatMap hnamed {}
    _ = { gs.foldl Group.setting {} with file := gs.findSome? Group.left? } :=
      Group.foldl_read (o := {}) hnamed (nofun : none ≠ some "")
    _ = { r.groups.foldl Group.setting {} with file := gs.findSome? Group.left? } := by
      rw [Group.foldl_setting_of_perm hperm fun k v w => value_inj_of_perm hperm]
    _ = { r.withoutEmpty.options with file := gs.findSome? Group.left? } := by
      rw [foldl_groups]

end Request

end MailThread.Program
