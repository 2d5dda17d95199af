import MailThread.Proofs.Arena.Date

namespace MailThread

def Index.IsWhole (i : Index) : Prop := ∃ z : ℤ, i = .ofRat z

/-- The child list of `i` comes to its end, and `j` is one of it. -/
def Arena.Lists (a : Arena) (i j : Index) : Prop :=
  ∃ c l, a.get? i = some c ∧ a.Path (·.nextSibling) c.firstChild l ∧ j ∈ l

namespace Forest

/-- Where an entry of the id index or a back-reference stands, there is a whole number. -/
structure Whole (f : Forest) : Prop where
  ids : ∀ e ∈ f.arena.ids, e.2.IsWhole
  threads : ∀ e ∈ f.envelopes, ∀ t, e.thread = some t → t.IsWhole

/-- The links, dates, ids and back-references of a forest do not contradict one another. -/
structure Coherent (f : Forest) : Prop where
  ids_inside : ∀ e ∈ f.arena.ids, e.2 ∈ f.arena.indices
  ids_distinct : (f.arena.ids.map Prod.snd).Nodup
  lists_end : ∀ i c, f.arena.get? i = some c →
    ∃ l, f.arena.Path (·.nextSibling) c.firstChild l ∧ l.Nodup
  child_parent : ∀ i j, f.arena.Lists i j → f.arena.parent? j = some i
  one_list : ∀ i i' j, f.arena.Lists i j → f.arena.Lists i' j → i = i'
  parent_lists : ∀ i p, f.arena.parent? i = some p → f.arena.Lists p i
  ways_end : ∀ i ∈ f.arena.indices, ∃ l, f.arena.Path (·.parent) (some i) l
  awaited : ∀ i c, f.arena.get? i = some c → c.message = none → c.firstChild ≠ none
  dates : ∀ i p, f.arena.parent? i = some p → f.arena.dateOf i ≤ f.arena.dateOf p
  messages_distinct : ∀ i j m, f.arena.message? i = some m → f.arena.message? j = some m → i = j
  messages_bound : ∀ i m, f.arena.message? i = some m →
    ∃ k e, m = .slot k ∧ f.envelopes[k]? = some e ∧ e.thread = some i
  threads_bound : ∀ k e t, f.envelopes[k]? = some e → e.thread = some t →
    t ∈ f.arena.indices ∧ f.arena.message? t = some (.slot k)

end Forest

theorem lookup_eq_none_iff {α β : Type} [BEq α] [LawfulBEq α] {l : List (α × β)} {k : α} :
    l.lookup k = none ↔ ∀ v, (k, v) ∉ l := by
  rw [List.lookup_eq_none_iff]
  constructor
  · intro h v hv
    simpa using h (k, v) hv
  · intro h p hp
    have hne : k ≠ p.1 := fun e => h p.2 (e ▸ hp)
    simpa using hne

theorem lookup_of_unique {α β : Type} [BEq α] [LawfulBEq α] {l : List (α × β)} {k : α} {v : β}
    (h : (k, v) ∈ l) (hu : ∀ w, (k, w) ∈ l → w = v) : l.lookup k = some v := by
  cases hl : l.lookup k with
  | none => exact absurd h (lookup_eq_none_iff.1 hl v)
  | some w =>
    obtain ⟨before, after, e, _⟩ := List.lookup_eq_some_iff.1 hl
    rw [hu w (by simp [e])]

theorem mem_of_lookup {α β : Type} [BEq α] [LawfulBEq α] {l : List (α × β)} {k : α} {v : β}
    (h : l.lookup k = some v) : (k, v) ∈ l := by
  obtain ⟨before, after, e, _⟩ := List.lookup_eq_some_iff.1 h
  simp [e]

namespace Index

theorem lookup_eq_some_iff {α : Type} {i : Index} {xs : Array α} {x : α} :
    i.lookup xs = some x ↔ ∃ k, i = .slot k ∧ xs[k]? = some x := by
  cases i <;> simp [lookup]

theorem mem_zip_slots {α : Type} {xs : Array α} {q : Index × α} :
    q ∈ ((List.range xs.size).map slot).zip xs.toList ↔ q.1.lookup xs = some q.2 := by
  rw [List.mem_iff_getElem?, lookup_eq_some_iff]
  refine exists_congr fun k => ?_
  have hlist : xs.toList[k]? = xs[k]? := Array.getElem?_toList
  rw [List.getElem?_zip_eq_some, List.getElem?_map, hlist]
  refine and_congr_left fun hx => ?_
  have hlt := (Array.getElem?_eq_some_iff.1 hx).1
  simp [hlt, eq_comm]

end Index

namespace Arena

variable {a : Arena} {i j p : Index} {c : Container} {l : List Index} {bound : Nat}
  {start : Option Index}

theorem outside_eq_false_iff (hi : i.IsWhole) : i.outside a.size = false ↔ i ∈ a.indices := by
  obtain ⟨z, rfl⟩ := hi
  unfold Index.ofRat
  split
  next =>
    rw [slot_mem_indices]
    simp only [Index.outside, decide_eq_false_iff_not, not_le]
  next hneg =>
    have hz : (z : Rat) < 0 := by
      have hnum : ¬ (0 : ℤ) ≤ z := fun h => hneg ⟨Rat.den_intCast z, by simpa using h⟩
      exact_mod_cast not_le.1 hnum
    simp [Index.outside, indices, hz]

/-- The index has no flaw if its containers exist and none of them is met twice. -/
theorem indexFlaws_eq_nil_iff {owners : List (Index × Text)} {ids : List (Text × Index)} :
    a.indexFlaws owners ids = [] ↔
      (∀ e ∈ ids, e.2.outside a.size = false) ∧ (ids.map Prod.snd).Nodup ∧
        ∀ e ∈ ids, ∀ id, (e.2, id) ∉ owners := by
  induction ids generalizing owners with
  | nil => simp [indexFlaws]
  | cons e ids ih =>
    unfold indexFlaws
    split
    next hout => simp [hout]
    next hin =>
      rw [Bool.not_eq_true] at hin
      rw [List.append_eq_nil_iff, ih, Option.toList_eq_nil_iff, Option.map_eq_none_iff,
        lookup_eq_none_iff, List.map_cons, List.nodup_cons, List.forall_mem_cons,
        List.forall_mem_cons]
      constructor
      · rintro ⟨hfirst, hinside, hnodup, hnew⟩
        refine ⟨⟨hin, hinside⟩, ⟨fun hmem => ?_, hnodup⟩, hfirst, fun e' he' id hid => ?_⟩
        · obtain ⟨e', he', heq⟩ := List.mem_map.1 hmem
          exact hnew e' he' e.1 (heq ▸ List.mem_cons_self)
        · exact hnew e' he' id (List.mem_cons_of_mem _ hid)
      · rintro ⟨⟨_, hinside⟩, ⟨hnot, hnodup⟩, hfirst, hnew⟩
        refine ⟨hfirst, hinside, hnodup, fun e' he' id hid => ?_⟩
        rcases List.mem_cons.1 hid with heq | hid
        · exact hnot (List.mem_map.2 ⟨e', he', congrArg Prod.fst heq⟩)
        · exact hnew e' he' id hid

theorem listing_nodup (a : Arena) (bound : Nat) (seen : List Index) (start : Option Index) :
    (a.listing bound seen start).1.Nodup ∧ ∀ j ∈ (a.listing bound seen start).1, j ∉ seen := by
  induction bound generalizing seen start with
  | zero => cases start <;> simp [listing]
  | succ bound ih =>
    cases start with
    | none => simp [listing]
    | some i =>
      unfold listing
      split
      next => simp
      next hi =>
        obtain ⟨hnodup, hnew⟩ := ih (i :: seen) (a.next? i)
        refine ⟨List.nodup_cons.2 ⟨fun hmem => hnew i hmem List.mem_cons_self, hnodup⟩, ?_⟩
        intro j hj
        rcases List.mem_cons.1 hj with rfl | hj
        · exact hi
        · exact fun hmem => hnew j hj (List.mem_cons_of_mem i hmem)

theorem listing_succ {seen : List Index} (hn : seen.Nodup) (hs : seen ⊆ a.indices)
    (hb : a.size + 2 ≤ bound + seen.length) :
    a.listing (bound + 1) seen start = a.listing bound seen start := by
  have hle := hn.length_le_of_subset hs
  rw [length_indices] at hle
  induction bound generalizing seen start with
  | zero => omega
  | succ bound ih =>
    cases start with
    | none => rfl
    | some i =>
      rw [listing]
      conv_rhs => rw [listing]
      split
      next => rfl
      next hi =>
        cases hc : a.get? i with
        | none =>
          -- outside of the arena the list ends
          have hnext : a.next? i = none := by simp [next?, hc]
          rw [hnext]
          cases bound <;> rfl
        | some c =>
          have hsub : i :: seen ⊆ a.indices := List.cons_subset.2 ⟨mem_indices_of_get? hc, hs⟩
          have hnodup : (i :: seen).Nodup := List.nodup_cons.2 ⟨hi, hn⟩
          have hle' := hnodup.length_le_of_subset hsub
          rw [length_indices] at hle'
          rw [ih hnodup hsub (by simp only [List.length_cons]; omega) hle']

theorem childListing_eq (c : Container) (hb : a.size + 2 ≤ bound) :
    a.listing bound [] c.firstChild = a.childListing c := by
  induction bound, hb using Nat.le_induction with
  | base => rfl
  | succ bound hb ih => rw [listing_succ List.nodup_nil (List.nil_subset _) hb, ih]

theorem listing_of_path {seen : List Index} (hl : a.Path (·.nextSibling) start l)
    (hb : l.length ≤ bound) (hs : ∀ j ∈ l, j ∉ seen) :
    a.listing bound seen start = (l, false) := by
  have hnodup := hl.nodup
  induction hl generalizing bound seen with
  | stop => cases bound <;> rfl
  | @step i c l hc _ ih =>
    cases bound with
    | zero => simp at hb
    | succ bound =>
      rw [List.nodup_cons] at hnodup
      have hrest := @ih bound (i :: seen) (by simpa using hb) (fun j hj hmem => by
        rcases List.mem_cons.1 hmem with rfl | hmem
        · exact hnodup.1 hj
        · exact hs j (List.mem_cons_of_mem i hj) hmem) hnodup.2
      have hnext : a.next? i = c.nextSibling := by simp [next?, hc]
      rw [listing, if_neg (hs i List.mem_cons_self), hnext, hrest]

theorem path_of_listing {seen : List Index} (h : a.listing bound seen start = (l, false))
    (hin : ∀ j ∈ l, j ∈ a.indices) : a.Path (·.nextSibling) start l := by
  induction bound generalizing seen start l with
  | zero =>
    cases start with
    | none =>
      cases h
      exact .stop
    | some i => cases h
  | succ bound ih =>
    cases start with
    | none =>
      cases h
      exact .stop
    | some i =>
      unfold listing at h
      split at h
      next => cases h
      next =>
        obtain ⟨rfl, hloops⟩ := Prod.mk.inj h
        obtain ⟨c, hc⟩ := mem_indices.1 (hin i List.mem_cons_self)
        have hrest := ih (Prod.ext rfl hloops) fun j hj => hin j (List.mem_cons_of_mem i hj)
        have hnext : a.next? i = c.nextSibling := by simp [next?, hc]
        rw [hnext] at hrest ⊢
        exact .step hc hrest

theorem childListing_of_path (hl : a.Path (·.nextSibling) c.firstChild l) :
    a.childListing c = (l, false) :=
  listing_of_path hl (Nat.le_add_right_of_le hl.length_le) fun _ _ => List.not_mem_nil

theorem childFlaws_snd (a : Arena) (p : Index) (listers : List (Index × Index)) (l : List Index) :
    (a.childFlaws p listers l).2 = (l.map fun j => (j, p)).reverse ++ listers := by
  induction l generalizing listers with
  | nil => rfl
  | cons j l ih => simp [childFlaws, ih]

/-- There is no flaw in children that point at their lister and that none listed before. -/
theorem childFlaws_eq_nil_iff {listers : List (Index × Index)} :
    (a.childFlaws p listers l).1 = [] ↔
      l.Nodup ∧ ∀ j ∈ l, a.parent? j = some p ∧ ∀ q, (j, q) ∉ listers := by
  induction l generalizing listers with
  | nil => simp [childFlaws]
  | cons j l ih =>
    simp only [childFlaws]
    rw [List.append_eq_nil_iff, List.append_eq_nil_iff, ih, Option.toList_eq_nil_iff,
      Option.map_eq_none_iff, lookup_eq_none_iff, List.nodup_cons, List.forall_mem_cons]
    have hother : (if a.parent? j = some p then [] else [Flaw.otherParent j p]) = [] ↔
        a.parent? j = some p := by split <;> simp [*]
    rw [hother]
    constructor
    · rintro ⟨⟨hfirst, hparent⟩, hnodup, hrest⟩
      refine ⟨⟨fun hj => (hrest j hj).2 p List.mem_cons_self, hnodup⟩, ⟨hparent, hfirst⟩,
        fun k hk => ⟨(hrest k hk).1, fun q hq => (hrest k hk).2 q (List.mem_cons_of_mem _ hq)⟩⟩
    · rintro ⟨⟨hj, hnodup⟩, ⟨hparent, hfirst⟩, hrest⟩
      refine ⟨⟨hfirst, hparent⟩, hnodup, fun k hk => ⟨(hrest k hk).1, fun q hq => ?_⟩⟩
      rcases List.mem_cons.1 hq with heq | hq
      · have hkj : k = j := congrArg Prod.fst heq
        exact hj (hkj ▸ hk)
      · exact (hrest k hk).2 q hq

/-- Every listed child is entered with its lister. -/
theorem mem_listFlaws_snd {listers : List (Index × Index)} {ps : List (Index × Container)}
    {q : Index × Index} :
    q ∈ (a.listFlaws listers ps).2 ↔
      q ∈ listers ∨ ∃ r ∈ ps, q.2 = r.1 ∧ q.1 ∈ (a.childListing r.2).1 := by
  induction ps generalizing listers with
  | nil => simp [listFlaws]
  | cons r ps ih =>
    simp only [listFlaws]
    rw [ih, childFlaws_snd, List.mem_append, List.mem_reverse, List.mem_map]
    constructor
    · rintro ((⟨j, hj, rfl⟩ | hq) | ⟨r', hr', hq⟩)
      · exact .inr ⟨r, List.mem_cons_self, rfl, hj⟩
      · exact .inl hq
      · exact .inr ⟨r', List.mem_cons_of_mem r hr', hq⟩
    · rintro (hq | ⟨r', hr', hq, hj⟩)
      · exact .inl (.inr hq)
      · rcases List.mem_cons.1 hr' with rfl | hr'
        · exact .inl (.inl ⟨q.1, hj, Prod.ext rfl hq.symm⟩)
        · exact .inr ⟨r', hr', hq, hj⟩

/-- The lists of different containers have no flaw if they end and hold the children of their
container. That none of them holds a child of another list follows. -/
theorem listFlaws_eq_nil_iff {listers : List (Index × Index)} {ps : List (Index × Container)}
    (hnodup : (ps.map Prod.fst).Nodup)
    (hold : ∀ q ∈ listers, a.parent? q.1 = some q.2 ∧ q.2 ∉ ps.map Prod.fst) :
    (a.listFlaws listers ps).1 = [] ↔
      ∀ r ∈ ps, (a.childListing r.2).2 = false ∧
        ∀ j ∈ (a.childListing r.2).1, a.parent? j = some r.1 := by
  induction ps generalizing listers with
  | nil => simp [listFlaws]
  | cons r ps ih =>
    rw [List.map_cons, List.nodup_cons] at hnodup
    have hchild : (a.childFlaws r.1 listers (a.childListing r.2).1).1 = [] ↔
        ∀ j ∈ (a.childListing r.2).1, a.parent? j = some r.1 := by
      rw [childFlaws_eq_nil_iff]
      refine ⟨fun h j hj => (h.2 j hj).1, fun h => ⟨(a.listing_nodup _ _ _).1, fun j hj => ?_⟩⟩
      refine ⟨h j hj, fun q hq => ?_⟩
      -- an earlier lister of `j` would be its parent as well
      obtain ⟨hparent, hnot⟩ := hold (j, q) hq
      rw [h j hj] at hparent
      exact hnot (by simp [Option.some.inj hparent])
    simp only [listFlaws]
    rw [List.append_eq_nil_iff, List.append_eq_nil_iff, hchild, List.forall_mem_cons]
    have hloops : (if (a.childListing r.2).2 then [Flaw.listLoops r.1] else []) = [] ↔
        (a.childListing r.2).2 = false := by split <;> simp [*]
    rw [hloops, childFlaws_snd, and_comm (a := ∀ j ∈ _, _)]
    refine and_congr_right fun hfirst => ih hnodup.2 fun q hq => ?_
    rcases List.mem_append.1 hq with hq | hq
    · obtain ⟨j, hj, rfl⟩ := List.mem_map.1 (List.mem_reverse.1 hq)
      exact ⟨hfirst.2 j hj, hnodup.1⟩
    · obtain ⟨hparent, hnot⟩ := hold q hq
      rw [List.map_cons, List.mem_cons, not_or] at hnot
      exact ⟨hparent, hnot.2⟩

theorem circles_of_path (hl : a.Path (·.parent) start l) (hb : l.length ≤ bound) (hi : i ∉ l) :
    a.circles i bound start = false := by
  induction hl generalizing bound with
  | stop => cases bound <;> rfl
  | @step j c l hc _ ih =>
    cases bound with
    | zero => simp at hb
    | succ bound =>
      have hrest := @ih bound (by simpa using hb) fun hmem => hi (List.mem_cons_of_mem j hmem)
      have hne : j ≠ i := by
        rintro rfl
        exact hi List.mem_cons_self
      rw [circles, if_neg hne, parent?_of_get? hc, hrest]

/-- A way up without a circle ends, if no parent is missing. -/
theorem path_of_circles (hparent : ∀ j p, a.parent? j = some p → p ∈ a.indices)
    (hstart : ∀ j, start = some j → j ∈ a.indices) (h : a.circles i bound start = false) :
    ∃ l, a.Path (·.parent) start l := by
  induction bound generalizing start with
  | zero =>
    cases start with
    | none => exact ⟨[], .stop⟩
    | some j => cases h
  | succ bound ih =>
    cases start with
    | none => exact ⟨[], .stop⟩
    | some j =>
      unfold circles at h
      split at h
      next => cases h
      next =>
        obtain ⟨c, hc⟩ := mem_indices.1 (hstart j rfl)
        obtain ⟨l, hl⟩ := ih (hparent j) h
        rw [parent?_of_get? hc] at hl
        exact ⟨j :: l, .step hc hl⟩

theorem parentFlaws_eq_nil_iff {listers : List (Index × Index)} :
    a.parentFlaws listers i c = [] ↔
      (∀ p, c.parent = some p → listers.lookup i = some p) ∧
        a.circles i (a.size + 1) c.parent = false := by
  unfold parentFlaws
  rw [List.append_eq_nil_iff]
  refine and_congr ?_ (by split <;> simp [*])
  cases c.parent with
  | none => simp
  | some p => simp

theorem contentFlaws_eq_nil_iff :
    a.contentFlaws i c = [] ↔
      (c.message = none → c.firstChild ≠ none) ∧
        ∀ p, c.parent = some p → ∀ d, a.get? p = some d → c.date ≤ d.date := by
  unfold contentFlaws
  rw [List.append_eq_nil_iff]
  refine and_congr ?_ ?_
  · cases hm : c.message <;> cases hf : c.firstChild <;> simp [Container.isPlaceholder, hm]
  · cases c.parent with
    | none => simp
    | some p => cases hp : a.get? p <;> simp [hp]

theorem numbered_map_fst (a : Arena) : a.numbered.map Prod.fst = a.indices := by
  apply List.map_fst_zip
  rw [length_indices, Array.length_toList]
  rfl

theorem mem_numbered {q : Index × Container} : q ∈ a.numbered ↔ a.get? q.1 = some q.2 :=
  Index.mem_zip_slots

end Arena

namespace Forest

open Arena

variable {f : Forest} {k : Nat} {e : Envelope}

/-- Bindings have no flaw if no message was held before and the envelope of each points back. That
no two of them hold one message follows. -/
theorem bindingFlaws_eq_nil_iff {holders : List (Index × Index)} {cs : List (Index × Container)}
    (hnodup : (cs.map Prod.fst).Nodup) :
    f.bindingFlaws holders cs = [] ↔
      ∀ q ∈ cs, ∀ m, q.2.message = some m →
        (∀ j, (m, j) ∉ holders) ∧ (m.lookup f.envelopes).bind (·.thread) = some q.1 := by
  induction cs generalizing holders with
  | nil => simp [bindingFlaws]
  | cons q cs ih =>
    rw [List.map_cons, List.nodup_cons] at hnodup
    unfold bindingFlaws
    rw [List.forall_mem_cons]
    cases hm : q.2.message with
    | none => simpa using ih hnodup.2
    | some m =>
      simp only [Option.some.injEq, forall_eq']
      rw [List.append_eq_nil_iff, List.append_eq_nil_iff, ih hnodup.2, Option.toList_eq_nil_iff,
        Option.map_eq_none_iff, lookup_eq_none_iff]
      have hback : (if (m.lookup f.envelopes).bind (·.thread) = some q.1 then []
          else [Flaw.notPointedBack m q.1]) = [] ↔
          (m.lookup f.envelopes).bind (·.thread) = some q.1 := by split <;> simp [*]
      rw [hback]
      refine and_congr_right fun hfirst => forall₂_congr fun r hr => forall₂_congr fun m' _ => ?_
      refine and_congr_left fun hpoints => ⟨fun h j hj => h j (List.mem_cons_of_mem _ hj),
        fun h j hj => ?_⟩
      rcases List.mem_cons.1 hj with heq | hj
      · -- one envelope would point at two containers
        obtain ⟨rfl, _⟩ := Prod.mk.inj heq
        rw [hfirst.2] at hpoints
        exact hnodup.1 (List.mem_map.2 ⟨r, hr, (Option.some.inj hpoints).symm⟩)
      · exact h j hj

/-- The flaw of the back-reference of the envelope at `k`, told without the lookup that may fail. -/
def threadFlaws (f : Forest) (k : Index) (e : Envelope) : List Flaw :=
  match e.thread with
  | none => []
  | some t => if f.arena.message? t = some k then [] else [.pointsElsewhere k t]

theorem referenceFlaw_eq (he : f.envelopes[k]? = some e)
    (hw : ∀ t, e.thread = some t → t.IsWhole) :
    f.referenceFlaw (.slot k) e = .ok (f.threadFlaws (.slot k) e) := by
  unfold referenceFlaw threadFlaws
  cases ht : e.thread with
  | none => rfl
  | some t =>
    have hholder : f.holderOf (.slot k) =
        .ok (if f.arena.message? t = some (.slot k) then some t else none) := by
      by_cases hin : t ∈ f.arena.indices
      · obtain ⟨c, hc⟩ := mem_indices.1 hin
        have hout : t.outside f.size = false := not_outside_of_mem hin
        simp only [holderOf, Index.lookup, he, Option.bind_some, ht, hout, get_of_get? hc, ok_bind,
          message?_of_get? hc, Bool.false_eq_true, if_false]
        rfl
      · have hout : t.outside f.size = true := by
          rw [← Bool.not_eq_false]
          exact fun h => hin ((outside_eq_false_iff (hw t ht)).1 h)
        have hm : f.arena.message? t ≠ some (.slot k) := fun hm => hin (mem_indices_of_message? hm)
        simp only [holderOf, Index.lookup, he, Option.bind_some, ht, hout, if_true, if_neg hm]
    simp only [hholder, ok_bind]
    split <;> rfl

theorem mem_numberedEnvelopes {q : Index × Envelope} :
    q ∈ f.numberedEnvelopes ↔ ∃ k, q.1 = .slot k ∧ f.envelopes[k]? = some q.2 :=
  Index.mem_zip_slots.trans Index.lookup_eq_some_iff

def flaws (f : Forest) : List Flaw :=
  f.arena.indexFlaws [] f.arena.ids ++ (f.arena.listFlaws [] f.arena.numbered).1 ++
    f.arena.numbered.flatMap (fun q =>
      f.arena.parentFlaws (f.arena.listFlaws [] f.arena.numbered).2 q.1 q.2) ++
    f.arena.numbered.flatMap (fun q => f.arena.contentFlaws q.1 q.2) ++
    f.bindingFlaws [] f.arena.numbered ++
    f.numberedEnvelopes.flatMap fun q => f.threadFlaws q.1 q.2

theorem audit_eq_ok (h : f.Whole) : f.audit = .ok f.flaws := by
  unfold audit
  rw [mapM_eq_ok (g := fun q => f.threadFlaws q.1 q.2) fun q hq => by
    obtain ⟨k, hk, he⟩ := mem_numberedEnvelopes.1 hq
    change f.referenceFlaw q.1 q.2 = .ok (f.threadFlaws q.1 q.2)
    rw [hk]
    exact referenceFlaw_eq he fun t => h.threads q.2 (Array.mem_of_getElem? he) t]
  rfl

theorem numbered_nodup (f : Forest) : (f.arena.numbered.map Prod.fst).Nodup :=
  numbered_map_fst f.arena ▸ f.arena.nodup_indices

theorem forall_mem_numbered {P : Index × Container → Prop} :
    (∀ q ∈ f.arena.numbered, P q) ↔ ∀ i c, f.arena.get? i = some c → P (i, c) :=
  ⟨fun h i c hc => h (i, c) (mem_numbered.2 hc), fun h q hq => h q.1 q.2 (mem_numbered.1 hq)⟩

/-- Child lists have no flaw if they end and their children point at the lister. -/
theorem listFlaws_numbered_eq_nil_iff :
    (f.arena.listFlaws [] f.arena.numbered).1 = [] ↔
      (∀ i c, f.arena.get? i = some c →
        ∃ l, f.arena.Path (·.nextSibling) c.firstChild l ∧ l.Nodup) ∧
      ∀ i j, f.arena.Lists i j → f.arena.parent? j = some i := by
  rw [listFlaws_eq_nil_iff f.numbered_nodup fun _ hq => absurd hq List.not_mem_nil,
    forall_mem_numbered]
  constructor
  · intro h
    have hpath : ∀ i c, f.arena.get? i = some c →
        f.arena.Path (·.nextSibling) c.firstChild (f.arena.childListing c).1 := fun i c hc =>
      path_of_listing (Prod.ext rfl (h i c hc).1) fun j hj =>
        mem_indices_of_parent? ((h i c hc).2 j hj)
    refine ⟨fun i c hc => ⟨_, hpath i c hc, (hpath i c hc).nodup⟩, ?_⟩
    rintro i j ⟨c, l, hc, hl, hj⟩
    rw [hl.unique (hpath i c hc)] at hj
    exact (h i c hc).2 j hj
  · rintro ⟨hends, hparent⟩ i c hc
    obtain ⟨l, hl, _⟩ := hends i c hc
    rw [childListing_of_path hl]
    exact ⟨rfl, fun j hj => hparent i j ⟨c, l, hc, hl, hj⟩⟩

section

variable (hends : ∀ i c, f.arena.get? i = some c →
    ∃ l, f.arena.Path (·.nextSibling) c.firstChild l ∧ l.Nodup)
  (hparent : ∀ i j, f.arena.Lists i j → f.arena.parent? j = some i)
include hends hparent

theorem lookup_listers_eq_some_iff {i p : Index} :
    (f.arena.listFlaws [] f.arena.numbered).2.lookup i = some p ↔ f.arena.Lists p i := by
  have hmem : ∀ {i p}, (i, p) ∈ (f.arena.listFlaws [] f.arena.numbered).2 ↔
      f.arena.Lists p i := by
    intro i p
    rw [mem_listFlaws_snd]
    constructor
    · rintro (h | ⟨r, hr, rfl, hi⟩)
      · cases h
      · have hc := mem_numbered.1 hr
        obtain ⟨l, hl, _⟩ := hends r.1 r.2 hc
        rw [childListing_of_path hl] at hi
        exact ⟨r.2, l, hc, hl, hi⟩
    · rintro ⟨c, l, hc, hl, hi⟩
      refine .inr ⟨(p, c), mem_numbered.2 hc, rfl, ?_⟩
      rw [childListing_of_path hl]
      exact hi
  refine ⟨fun h => hmem.1 (mem_of_lookup h), fun h => lookup_of_unique (hmem.2 h) fun q hq => ?_⟩
  exact Option.some.inj ((hparent q i (hmem.1 hq)).symm.trans (hparent p i h))

/-- Once the child lists are in order, ways up have no flaw if each parent lists the child and each
way ends. -/
theorem parentFlaws_numbered_eq_nil_iff :
    (∀ q ∈ f.arena.numbered,
        f.arena.parentFlaws (f.arena.listFlaws [] f.arena.numbered).2 q.1 q.2 = []) ↔
      (∀ i p, f.arena.parent? i = some p → f.arena.Lists p i) ∧
        ∀ i ∈ f.arena.indices, ∃ l, f.arena.Path (·.parent) (some i) l := by
  simp only [parentFlaws_eq_nil_iff, lookup_listers_eq_some_iff hends hparent,
    forall_mem_numbered (P := fun q => (∀ p, q.2.parent = some p → f.arena.Lists p q.1) ∧
      f.arena.circles q.1 (f.arena.size + 1) q.2.parent = false)]
  constructor
  · intro h
    have hlists : ∀ i p, f.arena.parent? i = some p → f.arena.Lists p i := by
      intro i p hp
      obtain ⟨c, hc⟩ := mem_indices.1 (mem_indices_of_parent? hp)
      exact (h i c hc).1 p ((parent?_of_get? hc).symm.trans hp)
    have hin : ∀ i p, f.arena.parent? i = some p → p ∈ f.arena.indices := by
      intro i p hp
      obtain ⟨c, _, hc, _, _⟩ := hlists i p hp
      exact mem_indices_of_get? hc
    refine ⟨hlists, fun i hi => ?_⟩
    obtain ⟨c, hc⟩ := mem_indices.1 hi
    obtain ⟨l, hl⟩ := path_of_circles hin
      (fun p hp => hin i p ((parent?_of_get? hc).trans hp)) (h i c hc).2
    exact ⟨i :: l, .step hc hl⟩
  · rintro ⟨hlists, hways⟩ i c hc
    refine ⟨fun p hp => hlists i p ((parent?_of_get? hc).trans hp), ?_⟩
    obtain ⟨_, hl⟩ := hways i (mem_indices_of_get? hc)
    cases hl with
    | step hd htail =>
      cases hc.symm.trans hd
      exact circles_of_path htail (Nat.le_succ_of_le htail.length_le)
        (List.nodup_cons.1 (Path.step hc htail).nodup).1

end

/-- Once parents exist, contents have no flaw if placeholders have children and no container is
newer than its parent. -/
theorem contentFlaws_numbered_eq_nil_iff
    (hin : ∀ i p, f.arena.parent? i = some p → p ∈ f.arena.indices) :
    (∀ q ∈ f.arena.numbered, f.arena.contentFlaws q.1 q.2 = []) ↔
      (∀ i c, f.arena.get? i = some c → c.message = none → c.firstChild ≠ none) ∧
        ∀ i p, f.arena.parent? i = some p → f.arena.dateOf i ≤ f.arena.dateOf p := by
  simp only [contentFlaws_eq_nil_iff]
  rw [forall_mem_numbered]
  constructor
  · refine fun h => ⟨fun i c hc => (h i c hc).1, fun i p hp => ?_⟩
    obtain ⟨c, hc⟩ := mem_indices.1 (mem_indices_of_parent? hp)
    obtain ⟨d, hd⟩ := mem_indices.1 (hin i p hp)
    rw [dateOf_of_get? hc, dateOf_of_get? hd]
    exact (h i c hc).2 p ((parent?_of_get? hc).symm.trans hp) d hd
  · rintro ⟨hawaited, hdates⟩ i c hc
    refine ⟨hawaited i c hc, fun p hp d hd => ?_⟩
    have hle := hdates i p ((parent?_of_get? hc).trans hp)
    rwa [dateOf_of_get? hc, dateOf_of_get? hd] at hle

/-- Bindings have no flaw if every message is an envelope that points back. -/
theorem bindingFlaws_numbered_eq_nil_iff :
    f.bindingFlaws [] f.arena.numbered = [] ↔
      ∀ i m, f.arena.message? i = some m →
        ∃ k e, m = .slot k ∧ f.envelopes[k]? = some e ∧ e.thread = some i := by
  have hback : ∀ {m : Index} {i}, (m.lookup f.envelopes).bind (·.thread) = some i ↔
      ∃ k e, m = .slot k ∧ f.envelopes[k]? = some e ∧ e.thread = some i := by
    intro m i
    simp only [Option.bind_eq_some_iff, Index.lookup_eq_some_iff]
    constructor
    · rintro ⟨e, ⟨k, hk, he⟩, ht⟩
      exact ⟨k, e, hk, he, ht⟩
    · rintro ⟨k, e, hk, he, ht⟩
      exact ⟨e, ⟨k, hk, he⟩, ht⟩
  rw [bindingFlaws_eq_nil_iff f.numbered_nodup, forall_mem_numbered]
  constructor
  · intro h i m hm
    obtain ⟨c, hc⟩ := mem_indices.1 (mem_indices_of_message? hm)
    exact hback.1 (h i c hc m ((message?_of_get? hc).symm.trans hm)).2
  · intro h i c hc m hm
    exact ⟨fun _ => List.not_mem_nil, hback.2 (h i m ((message?_of_get? hc).trans hm))⟩

theorem threadFlaws_eq_nil_iff :
    (∀ q ∈ f.numberedEnvelopes, f.threadFlaws q.1 q.2 = []) ↔
      ∀ k e t, f.envelopes[k]? = some e → e.thread = some t →
        t ∈ f.arena.indices ∧ f.arena.message? t = some (.slot k) := by
  have hone : ∀ k e, f.threadFlaws k e = [] ↔
      ∀ t, e.thread = some t → f.arena.message? t = some k := by
    intro k e
    unfold threadFlaws
    cases e.thread <;> simp
  constructor
  · intro h k e t he ht
    have hm := (hone _ _).1 (h (.slot k, e) (mem_numberedEnvelopes.2 ⟨k, rfl, he⟩)) t ht
    exact ⟨mem_indices_of_message? hm, hm⟩
  · intro h q hq
    obtain ⟨k, hk, he⟩ := mem_numberedEnvelopes.1 hq
    rw [hk]
    exact (hone _ _).2 fun t ht => (h k q.2 t he ht).2

theorem flaws_eq_nil_iff (hw : ∀ e ∈ f.arena.ids, e.2.IsWhole) : f.flaws = [] ↔ f.Coherent := by
  have hids : (∀ e ∈ f.arena.ids, e.2.outside f.arena.size = false) ↔
      ∀ e ∈ f.arena.ids, e.2 ∈ f.arena.indices :=
    forall₂_congr fun e he => outside_eq_false_iff (hw e he)
  simp only [flaws, List.append_eq_nil_iff, List.flatMap_eq_nil_iff]
  rw [indexFlaws_eq_nil_iff, listFlaws_numbered_eq_nil_iff, bindingFlaws_numbered_eq_nil_iff,
    threadFlaws_eq_nil_iff, hids]
  constructor
  · rintro ⟨⟨⟨⟨⟨⟨hinside, hdistinct, _⟩, hends, hparent⟩, hup⟩, hcontent⟩, hbound⟩, hthreads⟩
    obtain ⟨hlists, hways⟩ := (parentFlaws_numbered_eq_nil_iff hends hparent).1 hup
    obtain ⟨hawaited, hdates⟩ := (contentFlaws_numbered_eq_nil_iff fun i p hp => by
      obtain ⟨c, _, hc, _, _⟩ := hlists i p hp
      exact mem_indices_of_get? hc).1 hcontent
    refine ⟨hinside, hdistinct, hends, hparent, ?_, hlists, hways, hawaited, hdates, ?_, hbound,
      hthreads⟩
    · exact fun i i' j hi hi' => Option.some.inj ((hparent i j hi).symm.trans (hparent i' j hi'))
    · intro i j m hi hj
      obtain ⟨k, e, rfl, he, ht⟩ := hbound i m hi
      obtain ⟨_, e', hk, he', ht'⟩ := hbound j _ hj
      cases hk
      cases he.symm.trans he'
      exact Option.some.inj (ht.symm.trans ht')
  · intro h
    have hin : ∀ i p, f.arena.parent? i = some p → p ∈ f.arena.indices := by
      intro i p hp
      obtain ⟨c, _, hc, _, _⟩ := h.parent_lists i p hp
      exact mem_indices_of_get? hc
    exact ⟨⟨⟨⟨⟨⟨h.ids_inside, h.ids_distinct, fun _ _ _ => List.not_mem_nil⟩, h.lists_end,
      h.child_parent⟩, (parentFlaws_numbered_eq_nil_iff h.lists_end h.child_parent).2
        ⟨h.parent_lists, h.ways_end⟩⟩, (contentFlaws_numbered_eq_nil_iff hin).2
        ⟨h.awaited, h.dates⟩⟩, h.messages_bound⟩, h.threads_bound⟩

/-- The audit comes to its end on every forest with whole numbers, and it finds no flaw in the
coherent ones and no other. -/
theorem audit_eq_nil_iff (f : Forest) (h : f.Whole) :
    ∃ flaws, f.audit = .ok flaws ∧ (flaws = [] ↔ f.Coherent) :=
  ⟨f.flaws, audit_eq_ok h, flaws_eq_nil_iff h.ids⟩

/-- Two containers that are the only child of each other, an id and a back-reference below zero. -/
def knot : Forest where
  arena :=
    { containers := #[
        { message := some (.slot 0), parent := some (.slot 1), firstChild := some (.slot 1) },
        { message := some (.slot 1), parent := some (.slot 0), firstChild := some (.slot 0) }]
      ids := [("a", .slot 0), ("b", .ofRat (-1))] }
  envelopes := #[{ messageId := "a", thread := some (.slot 0) },
    { messageId := "b", thread := some (.slot 1) }, { thread := some (.ofRat (-2)) }]

/-- Child lists, dates and messages of the knot fit together, but it has no end. -/
theorem audit_eq_nil_iff_knot :
    knot.Whole ∧ ¬ knot.Coherent ∧
      knot.audit = .ok [.idOutside "b" (.ofRat (-1)), .inCycle (.slot 0), .inCycle (.slot 1),
        .pointsElsewhere (.slot 2) (.ofRat (-2))] := by
  have hwhole : knot.Whole := by
    refine ⟨fun e he => ?_, fun e he t ht => ?_⟩
    · simp only [knot, List.mem_cons, List.not_mem_nil, or_false] at he
      obtain rfl | rfl := he
      exacts [⟨0, rfl⟩, ⟨-1, rfl⟩]
    · simp only [knot, List.mem_toArray, List.mem_cons, List.not_mem_nil, or_false] at he
      obtain rfl | rfl | rfl := he <;> cases ht
      exacts [⟨0, rfl⟩, ⟨1, rfl⟩, ⟨-2, rfl⟩]
  have haudit : knot.audit = .ok [.idOutside "b" (.ofRat (-1)), .inCycle (.slot 0),
      .inCycle (.slot 1), .pointsElsewhere (.slot 2) (.ofRat (-2))] := by rfl
  obtain ⟨flaws, hflaws, hiff⟩ := audit_eq_nil_iff knot hwhole
  cases haudit.symm.trans hflaws
  exact ⟨hwhole, fun h => List.cons_ne_nil _ _ (hiff.2 h), haudit⟩

end Forest

end MailThread
