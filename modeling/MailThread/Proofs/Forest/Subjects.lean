import MailThread.Proofs.Forest.Rows

namespace MailThread

open Arena

namespace Arena

variable {a b : Arena} {es : Array Envelope} {i : Index}

def showsSubject (a : Arena) (i : Index) : Bool := ((a.get? i).map (·.showsSubject)).getD true

theorem showsSubject_congr (h : b.get? i = a.get? i) : b.showsSubject i = a.showsSubject i := by
  rw [showsSubject, h, showsSubject]

theorem Redrawn.subjectOf_eq (h : a.Redrawn b) (i : Index) : b.subjectOf es i = a.subjectOf es i := by
  rw [subjectOf, h.message?_eq, subjectOf]

end Arena

namespace Layout

variable {l l' : Layout} {es : Array Envelope} {suppress : Bool} {v : Visit} {vs : List Visit}
  {i j r : Index} {rs : List Index} {first : Text}

theorem showsSubject_reset (a : Arena) (i : Index) : (reset a).showsSubject i = true := by
  rw [showsSubject, get?_reset]
  cases a.get? i <;> rfl

/-- What is hidden of a conversation that starts with the subject `first`. -/
def hides (suppress : Bool) (first subject : Text) : Bool :=
  suppress && Subject.repeats subject first

theorem hides_iff {subject : Text} :
    hides suppress first subject = true ↔
      suppress = true ∧ (subject = first ∨ subject = Subject.replyMark ++ first) := by
  simp [hides, Subject.repeats]

theorem settle_placeholder (es : Array Envelope) (suppress : Bool)
    (hm : l.arena.message? v.index = none) :
    (l.settle es suppress v).arena.showsSubject v.index = l.arena.showsSubject v.index ∧
      (l.settle es suppress v).firstSubject = l.firstSubject := by
  cases hc : l.arena.get? v.index with
  | none => simp [settle, hc]
  | some c =>
    rw [message?_of_get? hc] at hm
    simp [settle, hc, hm, showsSubject, get?_update]

theorem settle_first (es : Array Envelope) (suppress : Bool)
    (hm : l.arena.message? v.index ≠ none) (hf : l.firstSubject = none) :
    (l.settle es suppress v).arena.showsSubject v.index = l.arena.showsSubject v.index ∧
      (l.settle es suppress v).firstSubject = some (l.arena.subjectOf es v.index) := by
  obtain ⟨m, hm⟩ := Option.ne_none_iff_exists'.1 hm
  obtain ⟨c, hc⟩ := mem_indices.1 (mem_indices_of_message? hm)
  rw [subjectOf, hm]
  rw [message?_of_get? hc] at hm
  simp [settle, hc, hm, hf, showsSubject, get?_update]

/-- A later message of a tree. -/
theorem settle_later (hm : l.arena.message? v.index ≠ none) (hf : l.firstSubject = some first) :
    (l.settle es suppress v).arena.showsSubject v.index =
        (l.arena.showsSubject v.index && !hides suppress first (l.arena.subjectOf es v.index)) ∧
      (l.settle es suppress v).firstSubject = some first := by
  obtain ⟨m, hm⟩ := Option.ne_none_iff_exists'.1 hm
  obtain ⟨c, hc⟩ := mem_indices.1 (mem_indices_of_message? hm)
  rw [subjectOf, hm]
  rw [message?_of_get? hc] at hm
  cases hh : hides suppress first (subjectAt es m) <;> unfold hides at hh <;>
    simp [settle, hc, hm, hf, hh, showsSubject, get?_update]

def rows (a : Arena) (vs : List Visit) : List Index :=
  (vs.map Visit.index).filter fun i => (a.message? i).isSome

theorem rows_redrawn {a b : Arena} (h : a.Redrawn b) (vs : List Visit) : rows b vs = rows a vs := by
  simp only [rows, h.message?_eq]

theorem settle_rows (l : Layout) (v : Visit) (vs : List Visit) :
    rows (l.settle es suppress v).arena vs = rows l.arena vs :=
  rows_redrawn (settle_redrawn es suppress l v) vs

theorem mem_map_of_mem_rows {a : Arena} (hi : i ∈ rows a vs) : i ∈ vs.map Visit.index :=
  (List.mem_filter.1 hi).1

def settleList (es : Array Envelope) (suppress : Bool) (l : Layout) (vs : List Visit) : Layout :=
  vs.foldl (settle es suppress) l

theorem settleAll_eq (h : l.arena.Linked) (vs : List Visit) :
    settleAll es suppress none l vs = (settleList es suppress l vs, none) := by
  induction vs generalizing l with
  | nil => rfl
  | cons v vs ih =>
    rw [settleAll, lostParent?_eq_none h.rooted]
    exact ih ((settle_redrawn es suppress l v).sameLinks.linked h)

theorem settleList_other (hj : j ∉ vs.map Visit.index) :
    (settleList es suppress l vs).arena.get? j = l.arena.get? j := by
  induction vs generalizing l with
  | nil => rfl
  | cons v vs ih =>
    rw [List.map_cons, List.mem_cons, not_or] at hj
    exact (ih hj.2).trans (settle_other hj.1)

theorem settleList_placeholder (hj : l.arena.message? j = none) :
    (settleList es suppress l vs).arena.showsSubject j = l.arena.showsSubject j := by
  induction vs generalizing l with
  | nil => rfl
  | cons v vs ih =>
    refine (ih (l := l.settle es suppress v) ?_).trans ?_
    · rw [(settle_redrawn es suppress l v).message?_eq, hj]
    · by_cases hv : j = v.index
      · subst hv
        exact (settle_placeholder es suppress hj).1
      · exact showsSubject_congr (settle_other hv)

/-- Behind the first message of a tree each one is compared with the subject of the first. -/
theorem settleList_later (es : Array Envelope) (suppress : Bool)
    (hf : l.firstSubject = some first) (hnodup : (vs.map Visit.index).Nodup)
    (hi : i ∈ rows l.arena vs) :
    (settleList es suppress l vs).arena.showsSubject i =
      (l.arena.showsSubject i && !hides suppress first (l.arena.subjectOf es i)) := by
  induction vs generalizing l with
  | nil => simp [rows] at hi
  | cons v vs ih =>
    rw [List.map_cons, List.nodup_cons] at hnodup
    have hred := settle_redrawn es suppress l v
    have hnext : (l.settle es suppress v).firstSubject = some first := by
      by_cases hm : l.arena.message? v.index = none
      · rw [(settle_placeholder es suppress hm).2, hf]
      · exact (settle_later hm hf).2
    obtain ⟨hmem, hmessage⟩ := List.mem_filter.1 hi
    rcases List.mem_cons.1 hmem with rfl | hmem
    · -- no later visit comes to this container
      have hm : l.arena.message? v.index ≠ none := Option.isSome_iff_ne_none.1 hmessage
      exact (showsSubject_congr (settleList_other hnodup.1)).trans (settle_later hm hf).1
    · have hne : i ≠ v.index := by
        rintro rfl
        exact hnodup.1 hmem
      have hlater := ih hnext hnodup.2 (List.mem_filter.2 ⟨hmem, by rwa [hred.message?_eq]⟩)
      rw [hred.subjectOf_eq, showsSubject_congr (settle_other hne)] at hlater
      exact hlater

/-- The first message of a tree shows its subject, and each later one is compared with it. -/
theorem settleList_first (es : Array Envelope) (suppress : Bool)
    (hf : l.firstSubject = none) (hnodup : (vs.map Visit.index).Nodup)
    (hrows : rows l.arena vs = r :: rs) :
    (settleList es suppress l vs).arena.showsSubject r = l.arena.showsSubject r ∧
      ∀ i ∈ rs, (settleList es suppress l vs).arena.showsSubject i =
        (l.arena.showsSubject i &&
          !hides suppress (l.arena.subjectOf es r) (l.arena.subjectOf es i)) := by
  induction vs generalizing l with
  | nil => simp [rows] at hrows
  | cons v vs ih =>
    rw [List.map_cons, List.nodup_cons] at hnodup
    have hred := settle_redrawn es suppress l v
    have hother : ∀ {i}, i ∈ rows l.arena vs →
        (l.settle es suppress v).arena.showsSubject i = l.arena.showsSubject i := fun hi => by
      refine showsSubject_congr (settle_other ?_)
      rintro rfl
      exact hnodup.1 (mem_map_of_mem_rows hi)
    rw [rows, List.map_cons, List.filter_cons] at hrows
    split at hrows
    next hm =>
      -- the tree starts here
      obtain ⟨rfl, rfl⟩ := List.cons.inj hrows
      obtain ⟨hshown, hfirst⟩ :=
        settle_first es suppress (Option.isSome_iff_ne_none.1 hm) hf
      refine ⟨(showsSubject_congr (settleList_other hnodup.1)).trans hshown, fun i hi => ?_⟩
      have hin : i ∈ rows (l.settle es suppress v).arena vs := by rwa [settle_rows]
      have hlater := settleList_later es suppress hfirst hnodup.2 hin
      rwa [hred.subjectOf_eq, hother hi] at hlater
    next hm =>
      have hnone : l.arena.message? v.index = none := by simpa using hm
      have hfirst := (settle_placeholder es suppress hnone).2.trans hf
      have hrest := ih hfirst hnodup.2 ((settle_rows l v vs).trans hrows)
      simp only [hred.subjectOf_eq] at hrest
      have hin : ∀ i ∈ r :: rs, i ∈ rows l.arena vs := fun i hi => by
        rw [rows, hrows]
        exact hi
      refine ⟨hrest.1.trans (hother (hin r List.mem_cons_self)), fun i hi => ?_⟩
      rw [← hother (hin i (List.mem_cons_of_mem r hi))]
      exact hrest.2 i hi

def Heads (a : Arena) (es : Array Envelope) (suppress : Bool) : List Index → Prop
  | [] => True
  | first :: rest => a.showsSubject first = true ∧ ∀ i ∈ rest,
      a.showsSubject i = !hides suppress (a.subjectOf es first) (a.subjectOf es i)

theorem Heads.congr {a b : Arena} {is : List Index} (h : Heads a es suppress is)
    (hred : a.Redrawn b) (hget : ∀ i ∈ is, b.get? i = a.get? i) : Heads b es suppress is := by
  cases is with
  | nil => trivial
  | cons first rest =>
    refine ⟨(showsSubject_congr (hget first List.mem_cons_self)).trans h.1, fun i hi => ?_⟩
    rw [showsSubject_congr (hget i (List.mem_cons_of_mem first hi)), h.2 i hi, hred.subjectOf_eq,
      hred.subjectOf_eq]

theorem addTree_eq (h : l.arena.Linked) (hr : r ∈ l.arena.indices) :
    l.addTree es suppress r =
      (settleList es suppress { l with firstSubject := none } (l.arena.visits id 0 r), none) := by
  rw [addTree_eq_settleAll, (h.outline_spec hr id_perm).1,
    settleAll_eq (l := { l with firstSubject := none }) h]
  rfl

/-- A layout of a tree none of whose subjects was hidden before. -/
theorem addTree_heads (h : l.arena.Linked) (hr : r ∈ l.arena.indices)
    (hshown : ∀ i ∈ l.arena.walk id r, l.arena.showsSubject i = true)
    (hl : l.addTree es suppress r = (l', none)) :
    Heads l'.arena es suppress (rows l.arena (l.arena.visits id 0 r)) := by
  obtain ⟨_, hsettles, hspec⟩ := addTree_spec es suppress h hr
  cases hl.symm.trans hsettles
  rw [addTree_eq h hr] at hl
  cases hl
  cases hrows : rows l.arena (l.arena.visits id 0 r) with
  | nil => trivial
  | cons first rest =>
    obtain ⟨hfirst, hrest⟩ := settleList_first es suppress
      (l := { l with firstSubject := none }) rfl (h.nodup_walk id_perm hr) hrows
    have hin : ∀ i ∈ first :: rest, l.arena.showsSubject i = true := fun i hi =>
      hshown i (mem_map_of_mem_rows (hrows ▸ hi))
    refine ⟨hfirst.trans (hin first List.mem_cons_self), fun i hi => ?_⟩
    rw [hspec.redrawn.subjectOf_eq, hspec.redrawn.subjectOf_eq, hrest i hi,
      show ({ l with firstSubject := none } : Layout).arena.showsSubject i = true from
        hin i (List.mem_cons_of_mem first hi), Bool.true_and]

theorem addTree_placeholder (h : l.arena.Linked) (hr : r ∈ l.arena.indices)
    (hj : l.arena.message? j = none) (hl : l.addTree es suppress r = (l', none)) :
    l'.arena.showsSubject j = l.arena.showsSubject j := by
  rw [addTree_eq h hr] at hl
  cases hl
  exact settleList_placeholder (l := { l with firstSubject := none }) hj

theorem addTrees_placeholder (h : l.arena.Linked) (hrs : ∀ r ∈ rs, r ∈ l.arena.indices)
    (hj : l.arena.message? j = none) (hl : addTrees es suppress l rs = (l', none)) :
    l'.arena.showsSubject j = l.arena.showsSubject j := by
  induction rs generalizing l with
  | nil =>
    cases hl
    rfl
  | cons r rs ih =>
    have hr := hrs r List.mem_cons_self
    obtain ⟨l₁, hl₁, hfirst⟩ := addTree_spec es suppress h hr
    rw [addTrees, hl₁] at hl
    rw [← addTree_placeholder h hr hj hl₁]
    refine ih (hfirst.redrawn.sameLinks.linked h) (fun r' hr' => ?_) ?_ hl
    · exact hfirst.redrawn.mem_indices.2 (hrs r' (List.mem_cons_of_mem r hr'))
    · rw [hfirst.redrawn.message?_eq, hj]

/-- A layout of trees that have nothing in common and none of whose subjects was hidden before. -/
theorem addTrees_heads (h : l.arena.Linked) (hrs : ∀ r ∈ rs, r ∈ l.arena.indices)
    (hnodup : ((rs.flatMap (l.arena.visits id 0)).map Visit.index).Nodup)
    (hshown : ∀ r ∈ rs, ∀ i ∈ l.arena.walk id r, l.arena.showsSubject i = true)
    (hl : addTrees es suppress l rs = (l', none)) :
    ∀ r ∈ rs, Heads l'.arena es suppress (rows l.arena (l.arena.visits id 0 r)) := by
  induction rs generalizing l with
  | nil => exact fun r hr => absurd hr List.not_mem_nil
  | cons r rs ih =>
    have hr := hrs r List.mem_cons_self
    obtain ⟨l₁, hl₁, hfirst⟩ := addTree_spec es suppress h hr
    have hred := hfirst.redrawn
    have hlinked := hred.sameLinks.linked h
    have hin : ∀ r' ∈ rs, r' ∈ l₁.arena.indices := fun r' hr' =>
      hred.mem_indices.2 (hrs r' (List.mem_cons_of_mem r hr'))
    rw [addTrees, hl₁] at hl
    obtain ⟨_, hl₂, hrest⟩ := addTrees_spec es suppress hlinked hin
    cases hl.symm.trans hl₂
    have hsame : l₁.arena.visits = l.arena.visits := hred.visits_eq
    rw [List.flatMap_cons, List.map_append] at hnodup
    have hapart := List.disjoint_of_nodup_append hnodup
    intro r' hr'
    rcases List.mem_cons.1 hr' with rfl | hr'
    · -- the later trees leave this one alone
      refine (addTree_heads h hr (hshown r' List.mem_cons_self) hl₁).congr hrest.redrawn
        fun i hi => hrest.other i ?_
      rw [hsame]
      exact hapart (mem_map_of_mem_rows hi)
    · rw [← hsame, ← rows_redrawn hred]
      refine ih hlinked hin (by rw [hsame]; exact hnodup.of_append_right) (fun t ht i hi => ?_) hl
        r' hr'
      have hi' : i ∈ l.arena.walk id t := by rwa [walk, hsame] at hi
      rw [showsSubject_congr (hfirst.other i fun hir => hapart hir ?_)]
      · exact hshown t (List.mem_cons_of_mem r ht) i hi'
      · rw [List.map_flatMap]
        exact List.mem_flatMap.2 ⟨t, ht, hi'⟩

end Layout

namespace Forest

variable {f g : Forest} {suppress : Bool} {i r : Index}

/-- What rows show of their subjects after a layout. -/
structure Headed (f : Forest) (suppress : Bool) : Prop where
  /-- The rows of a conversation stand together. The first of them shows its subject; another one does
  not if subjects are suppressed and its own is that of the first, with or without the mark of a
  reply. -/
  conversation : ∀ r ∈ f.roots, ∃ before first rest behind,
    f.order = before ++ first :: rest ++ behind ∧
    (∀ i, i ∈ first :: rest ↔ f.arena.Below i r ∧ ∃ m, f.arena.message? i = some m) ∧
    f.arena.showsSubject first = true ∧
    ∀ i ∈ rest, f.arena.showsSubject i = false ↔
      suppress = true ∧ (f.subject i = f.subject first ∨ f.subject i = "Re: " ++ f.subject first)
  covered : ∀ i ∈ f.order, ∃ r ∈ f.roots, f.arena.Below i r
  /-- A container without a row shows its subject. -/
  placeholder : ∀ i ∉ f.order, f.arena.showsSubject i = true

namespace Sound

variable (h : f.Sound)
include h

/-- The rows of a conversation stand together. -/
theorem exists_rows (hl : f.Laid) (hf : r ∈ f.roots) :
    ∃ before behind,
      f.order = before ++ Layout.rows f.arena (f.arena.visits id 0 r) ++ behind ∧
      ∀ i, i ∈ Layout.rows f.arena (f.arena.visits id 0 r) ↔
        f.arena.Below i r ∧ ∃ m, f.arena.message? i = some m := by
  obtain ⟨rs, rs', hroots⟩ := List.append_of_mem hf
  refine ⟨Layout.rows f.arena (rs.flatMap (f.arena.visits id 0)),
    Layout.rows f.arena (rs'.flatMap (f.arena.visits id 0)), ?_, fun i => ?_⟩
  · rw [hl.order, visits, hroots]
    simp [Layout.rows]
  · rw [Layout.rows, List.mem_filter, Option.isSome_iff_exists]
    exact and_congr_left fun _ => h.arena.linked.mem_walk id_perm (h.roots r hf)

variable (hr : f.Harvested)
include hr

/-- A layout deals with each tree by itself, and it starts with all subjects shown. -/
theorem layOut_heads (hg : f.layOut suppress = (g, none)) :
    (∀ r ∈ f.roots,
      Layout.Heads g.arena f.envelopes suppress (Layout.rows g.arena (g.arena.visits id 0 r))) ∧
      ∀ j, g.arena.message? j = none → g.arena.showsSubject j = true := by
  have hreset := Layout.reset_redrawn f.arena
  have hlinked := hreset.sameLinks.linked h.arena.linked
  have hroots : ∀ r ∈ f.roots, r ∈ (Layout.reset f.arena).indices := fun r hf =>
    hreset.mem_indices.2 (h.roots r hf)
  obtain ⟨l, hl, hsettles⟩ := Layout.addTrees_spec f.envelopes suppress
    (l := { arena := Layout.reset f.arena }) hlinked hroots
  rw [layOut, Layout.compute, hl] at hg
  cases hg
  have hred := hsettles.redrawn
  refine ⟨fun r hf => ?_, fun j hj => ?_⟩
  · rw [Layout.rows_redrawn hred, hred.visits_eq]
    refine Layout.addTrees_heads hlinked hroots ?_ (fun _ _ i _ => ?_) hl r hf
    · rw [hreset.visits_eq]
      exact h.nodup_visits hr
    · exact Layout.showsSubject_reset f.arena i
  · rw [Layout.addTrees_placeholder hlinked hroots (hred.message?_eq j ▸ hj) hl]
    exact Layout.showsSubject_reset f.arena j

theorem layOut_headed (hg : f.layOut suppress = (g, none)) (hred : f.Redrawn g) (hl : g.Laid) :
    g.Headed suppress := by
  obtain ⟨hheads, hplaceholder⟩ := h.layOut_heads hr hg
  have hsound := hred.sound h
  refine ⟨fun r hf => ?_, fun i hi => ?_, fun i hi => hplaceholder i ?_⟩
  · obtain ⟨before, behind, horder, hmem⟩ := hsound.exists_rows hl hf
    have hhead := hheads r (hred.roots ▸ hf)
    match hrows : Layout.rows g.arena (g.arena.visits id 0 r) with
    | [] =>
      -- every conversation has a message
      obtain ⟨k, i, hi, hk⟩ := hsound.members_nonempty (hsound.roots r hf)
      exact absurd ((hmem i).2 ⟨hi, _, hk⟩) (by simp [hrows])
    | first :: rest =>
      rw [hrows] at hhead horder hmem
      refine ⟨before, first, rest, behind, horder, hmem, hhead.1, fun i hi => ?_⟩
      rw [hhead.2 i hi, Bool.not_eq_false', Layout.hides_iff, ← hred.envelopes]
      rfl
  · obtain ⟨hvisit, _⟩ := List.mem_filter.1 (hl.order ▸ hi)
    exact hsound.mem_visits.1 hvisit
  · by_contra hm
    exact hi ((hsound.mem_order (hred.harvested h hr) hl).2 (Option.ne_none_iff_exists'.1 hm))

/-- However often a forest is laid out again, what its rows show of their subjects is told by the last
layout. -/
theorem layOuts_headed (hl : f.Laid) (hh : f.Headed suppress) (again : List Bool) :
    ∃ g, f.layOuts again = (g, none) ∧ f.Redrawn g ∧ g.Laid ∧
      g.Headed (again.getLast?.getD suppress) := by
  induction again generalizing f suppress with
  | nil => exact ⟨f, rfl, .refl f, hl, hh⟩
  | cons s again ih =>
    obtain ⟨f', hf', hred, hl'⟩ := h.layOut_laid hr s
    obtain ⟨g, hg, hred', hl'', hlast⟩ := ih (hred.sound h) (hred.harvested h hr) hl'
      (h.layOut_headed hr hf' hred hl')
    refine ⟨g, ?_, hred.trans hred', hl'', ?_⟩
    · rw [layOuts, hf']
      exact hg
    · rw [List.getLast?_cons]
      exact hlast

end Sound

end Forest

end MailThread
