import MailThread.Proofs.Forest.Conversation

namespace MailThread

open Arena

namespace Arena

variable {a b : Arena} {i p : Index}

theorem messageParent?_eq_none_iff :
    a.messageParent? i = none ↔
      a.parent? i = none ∨ ∃ p, a.parent? i = some p ∧ a.message? p = none := by
  unfold messageParent?
  cases hp : a.parent? i with
  | none => simp
  | some p => simp [Option.filter]

theorem messageParent?_eq_some_iff :
    a.messageParent? i = some p ↔ a.parent? i = some p ∧ a.message? p ≠ none := by
  simp [messageParent?, Option.filter_eq_some_iff, Option.isSome_iff_ne_none]

end Arena

namespace Forest

variable {f g : Forest} {i j r r' : Index}

theorem Redrawn.harvested (h : f.Redrawn g) (hf : f.Sound) (hr : f.Harvested) : g.Harvested where
  nodup := h.roots ▸ hr.nodup
  mem := fun {r} => by
    rw [h.roots, hr.mem]
    simp only [h.arena.mem_tops, h.arena.standIn_eq hf.arena.linked]

theorem Redrawn.visits_eq (h : f.Redrawn g) : g.visits = f.visits := by
  rw [visits, h.roots, h.arena.visits_eq, visits]

/-- What a layout leaves behind: each row has the level of the messages above it and shows its parent,
if that is a message. -/
structure Laid (f : Forest) : Prop where
  order : f.order = (f.visits.map Visit.index).filter fun i => (f.arena.message? i).isSome
  indentation : ∀ i ∈ f.arena.indices, f.arena.indentationOf i = (f.arena.messagesAbove i).ncard
  shownParent : ∀ i ∈ f.arena.indices, f.arena.shownParent? i = f.arena.messageParent? i

namespace Sound

variable (h : f.Sound) (hr : f.Harvested)
include h

theorem mem_visits : j ∈ f.visits.map Visit.index ↔ ∃ r ∈ f.roots, f.arena.Below j r := by
  rw [visits, List.map_flatMap, List.mem_flatMap]
  exact exists_congr fun r => and_congr_right fun hr =>
    h.arena.linked.mem_walk id_perm (h.roots r hr)

include hr

theorem root_eq_of_below (hf : r ∈ f.roots) (hf' : r' ∈ f.roots) (hj : f.arena.Below j r)
    (hj' : f.arena.Below j r') : r = r' := by
  obtain ⟨t, ht, rfl⟩ := hr.mem.1 hf
  obtain ⟨t', ht', rfl⟩ := hr.mem.1 hf'
  rw [h.arena.linked.top_eq_of_below ht ht' hj hj']

theorem nodup_visits : (f.visits.map Visit.index).Nodup := by
  have hl := h.arena.linked
  rw [visits, List.map_flatMap, List.nodup_flatMap]
  refine ⟨fun r hf => hl.nodup_walk id_perm (h.roots r hf), ?_⟩
  refine hr.nodup.imp_of_mem fun {r r'} hf hf' hne => List.disjoint_left.2 fun j hj hj' => hne ?_
  exact h.root_eq_of_below hr hf hf' ((hl.mem_walk id_perm (h.roots r hf)).1 hj)
    ((hl.mem_walk id_perm (h.roots r' hf')).1 hj')

theorem visited_or (hi : i ∈ f.arena.indices) :
    i ∈ f.visits.map Visit.index ∨ (f.arena.message? i = none ∧ f.arena.parent? i = none) := by
  obtain ⟨t, ht, hit⟩ := h.arena.rooted.exists_mem_tops hi
  by_cases hri : f.arena.Replaced i
  · exact .inr ⟨hri.2.1, hri.1⟩
  · have hbelow := h.arena.linked.below_standIn ht hit hri
    exact .inl (h.mem_visits.2 ⟨_, hr.mem.2 ⟨t, ht, rfl⟩, hbelow⟩)

theorem messagesAbove_root (hf : r ∈ f.roots) : (f.arena.messagesAbove r).ncard = 0 := by
  obtain ⟨t, ht, rfl⟩ := hr.mem.1 hf
  have htop := messagesAbove_of_parentless (mem_tops.1 ht).2
  rcases f.arena.standIn_cases t with hs | ⟨hm, hk⟩
  · rw [hs, htop, Set.ncard_empty]
  · have hparent := h.arena.linked.mem_kids.1 (hk ▸ List.mem_singleton_self (f.arena.standIn t))
    rw [h.arena.rooted.ncard_messagesAbove hparent, htop, Set.ncard_empty, ownLevel, hm]
    rfl

theorem level_eq {v : Visit} (hv : v ∈ f.visits) :
    v.level = (f.arena.messagesAbove v.index).ncard := by
  obtain ⟨r, hf, hv⟩ := List.mem_flatMap.1 hv
  have hlevel := h.arena.linked.level_add id_perm (h.roots r hf) hv
  rwa [h.messagesAbove_root hr hf, Nat.add_zero, Nat.zero_add] at hlevel

section Settled

variable {l : Layout} (hs : Layout.Settles { arena := Layout.reset f.arena } l f.visits)
  (hi : i ∈ f.arena.indices)
include hs hi

theorem get?_of_not_visited (hv : i ∉ f.visits.map Visit.index) :
    l.arena.get? i = (Layout.reset f.arena).get? i ∧ f.arena.parent? i = none :=
  ⟨hs.other i hv, ((h.visited_or hr hi).resolve_left hv).2⟩

theorem indentationOf_settled : l.arena.indentationOf i = (f.arena.messagesAbove i).ncard := by
  by_cases hiv : i ∈ f.visits.map Visit.index
  · obtain ⟨v, hv, rfl⟩ := List.mem_map.1 hiv
    rw [← h.level_eq hr hv]
    exact hs.indentation (h.nodup_visits hr) v hv
      ((Layout.reset_redrawn f.arena).mem_indices.2 hi)
  · obtain ⟨hget, hfree⟩ := h.get?_of_not_visited hr hs hi hiv
    rw [messagesAbove_of_parentless hfree, Set.ncard_empty, indentationOf, hget, ← indentationOf,
      Layout.indentationOf_reset]
    rfl

theorem shownParent?_settled : l.arena.shownParent? i = f.arena.messageParent? i := by
  have hreset := Layout.reset_redrawn f.arena
  by_cases hiv : i ∈ f.visits.map Visit.index
  · obtain ⟨v, hv, rfl⟩ := List.mem_map.1 hiv
    rw [hs.shownParent (h.nodup_visits hr) v hv, hreset.messageParent?_eq]
    rw [Layout.shownParent?_reset, hreset.sameLinks.parent?_eq]
  · obtain ⟨hget, hfree⟩ := h.get?_of_not_visited hr hs hi hiv
    rw [shownParent?, hget, ← shownParent?, Layout.shownParent?_reset, hfree, messageParent?, hfree]
    rfl

end Settled

theorem layOut_laid (suppress : Bool) :
    ∃ g, f.layOut suppress = (g, none) ∧ f.Redrawn g ∧ g.Laid := by
  obtain ⟨l, hl, hsettles⟩ := h.layOut_eq suppress
  have hreset := Layout.reset_redrawn f.arena
  have hred : f.arena.Redrawn l.arena := hreset.trans hsettles.redrawn
  have hg : f.Redrawn { f with arena := l.arena, order := l.order } := ⟨hred, rfl, rfl⟩
  refine ⟨_, hl, hg, ?_, fun i hi => ?_, fun i hi => ?_⟩
  · rw [hg.visits_eq]
    refine (hsettles.order (h.nodup_visits hr) fun v _ => List.not_mem_nil).trans ?_
    simp only [hreset.message?_eq, hred.message?_eq]
    exact List.nil_append _
  · rw [hred.messagesAbove_eq]
    exact h.indentationOf_settled hr hsettles (hred.mem_indices.1 hi)
  · rw [hred.messageParent?_eq]
    exact h.shownParent?_settled hr hsettles (hred.mem_indices.1 hi)

theorem layOuts_laid (hl : f.Laid) (ss : List Bool) :
    ∃ g, f.layOuts ss = (g, none) ∧ f.Redrawn g ∧ g.Laid := by
  induction ss generalizing f with
  | nil => exact ⟨f, rfl, .refl f, hl⟩
  | cons s ss ih =>
    obtain ⟨f', hf', hred, hl'⟩ := h.layOut_laid hr s
    obtain ⟨g, hg, hred', hl''⟩ := ih (hred.sound h) (hred.harvested h hr) hl'
    refine ⟨g, ?_, hred.trans hred', hl''⟩
    rw [layOuts, hf']
    exact hg

variable (hl : f.Laid)
include hl

theorem nodup_order : f.order.Nodup := by
  rw [hl.order]
  exact (h.nodup_visits hr).filter _

theorem mem_order : i ∈ f.order ↔ ∃ m, f.arena.message? i = some m := by
  rw [hl.order, List.mem_filter, ← Option.isSome_iff_exists]
  refine and_iff_right_of_imp fun hm => ?_
  obtain ⟨m, hm⟩ := Option.isSome_iff_exists.1 hm
  refine (h.visited_or hr (mem_indices_of_message? hm)).resolve_right fun hnone => ?_
  rw [hnone.1] at hm
  cases hm

omit hr in
theorem indentationOf_eq_zero_iff (hi : i ∈ f.arena.indices) :
    f.arena.indentationOf i = 0 ↔ f.arena.shownParent? i = none := by
  rw [hl.indentation i hi, hl.shownParent i hi, messageParent?_eq_none_iff, Nat.cast_eq_zero]
  cases hp : f.arena.parent? i with
  | none => simp [messagesAbove_of_parentless hp]
  | some p =>
    rw [h.arena.rooted.ncard_messagesAbove hp, ownLevel]
    cases hm : f.arena.message? p with
    | none => simp [messagesAbove_of_parentless (h.arena.ready.topmost p hm), hm]
    | some m => simp [hm]

omit hl in
/-- The visit of a parent stands before that of a child, and those between them stand as far in as the
child at least. -/
theorem exists_visit_before {v : Visit} (hv : v ∈ f.visits) (hp : f.arena.parent? v.index = some p)
    (hm : f.arena.message? p ≠ none) :
    ∃ n before between behind, f.visits = before ++ ⟨p, n⟩ :: between ++ v :: behind ∧
      ∀ u ∈ between, v.level ≤ u.level := by
  obtain ⟨r, hf, hvr⟩ := List.mem_flatMap.1 hv
  have hne : v.index ≠ r := by
    rintro rfl
    have habove := h.arena.rooted.ncard_messagesAbove hp
    rw [h.messagesAbove_root hr hf, ownLevel, if_pos (Option.isSome_iff_ne_none.2 hm)] at habove
    omega
  obtain ⟨q, n, before, between, behind, hq, _, htree, hbetween⟩ :=
    h.arena.linked.exists_parent_visit id_perm (h.roots r hf) hvr hne
  cases hp.symm.trans hq
  obtain ⟨rs, rs', hroots⟩ := List.append_of_mem hf
  refine ⟨n, rs.flatMap (f.arena.visits id 0) ++ before, between,
    behind ++ rs'.flatMap (f.arena.visits id 0), ?_, hbetween⟩
  rw [visits, hroots, List.flatMap_append, List.flatMap_cons, htree]
  simp

/-- The parent that a row shows is the nearest row before it which stands in less far. -/
theorem exists_row_before (hi : i ∈ f.order) (hp : f.arena.shownParent? i = some p) :
    f.arena.indentationOf i = f.arena.indentationOf p + 1 ∧
      ∃ before between behind, f.order = before ++ p :: between ++ i :: behind ∧
        ∀ j ∈ between, f.arena.indentationOf i ≤ f.arena.indentationOf j := by
  obtain ⟨m, hm⟩ := (h.mem_order hr hl).1 hi
  have hia := mem_indices_of_message? hm
  rw [hl.shownParent i hia, messageParent?_eq_some_iff] at hp
  have hpm : (f.arena.message? p).isSome := Option.isSome_iff_ne_none.2 hp.2
  have habove := h.arena.rooted.ncard_messagesAbove hp.1
  rw [ownLevel, if_pos hpm] at habove
  refine ⟨by rw [hl.indentation i hia, hl.indentation p (h.arena.rooted.parent_mem hp.1), habove,
    Nat.cast_succ], ?_⟩
  rw [hl.order, List.mem_filter, List.mem_map] at hi
  obtain ⟨⟨v, hv, rfl⟩, hmessage⟩ := hi
  obtain ⟨n, before, between, behind, hvisits, hbetween⟩ :=
    h.exists_visit_before hr hv hp.1 hp.2
  -- the rows are the visits of containers with a message
  let rows := fun vs : List Visit =>
    (vs.map Visit.index).filter fun i => (f.arena.message? i).isSome
  refine ⟨rows before, rows between, rows behind, ?_, fun j hj => ?_⟩
  · rw [hl.order, hvisits]
    simp only [rows, List.map_append, List.map_cons, List.filter_append, List.filter_cons, hpm,
      hmessage, if_true]
  · obtain ⟨hj, hjm⟩ := List.mem_filter.1 hj
    obtain ⟨u, hu, rfl⟩ := List.mem_map.1 hj
    obtain ⟨_, hum⟩ := Option.isSome_iff_exists.1 hjm
    have huv : u ∈ f.visits := by simp [hvisits, hu]
    rw [hl.indentation _ hia, hl.indentation _ (mem_indices_of_message? hum),
      ← h.level_eq hr hv, ← h.level_eq hr huv]
    exact_mod_cast hbetween u hu

end Sound

end Forest

end MailThread
