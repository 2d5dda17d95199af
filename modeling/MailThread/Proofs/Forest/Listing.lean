import MailThread.Proofs.Forest.Conversation
import MailThread.Proofs.Listing.Order

namespace MailThread

open Arena RowOrder

namespace Forest

variable {f : Forest} {o : ListingStyle} {i j : Index}

theorem Sound.filterMapM_conversation? (h : f.Sound) (term : Text) :
    f.roots.filterMapM (f.conversation? term) =
      .ok ((f.roots.filter (f.meets term)).map f.conversationOf) := by
  rw [filterMapM_eq_ok fun r hr => h.conversation?_eq_ok (h.roots r hr) term,
    ← List.filterMap_eq_map, List.filterMap_filter]
  rfl

/-- The conversations of a listing, told by their roots: those that meet the term, sorted. -/
theorem Sound.conversations_eq (h : f.Sound) (o : ListingStyle) :
    ∃ rs, Sorts o.sort f.arena.dateOf f.firstSubject (f.roots.filter (f.meets o.filter)) rs ∧
      f.conversations o = .ok (rs.map f.conversationOf) := by
  unfold conversations
  rw [h.filterMapM_conversation?, ok_bind]
  cases o.sort with
  | none => exact ⟨_, sorts_none _ _ _, rfl⟩
  | some s =>
    have hsort : ((f.roots.filter (f.meets o.filter)).mergeSort fun r r' =>
          s.le (f.conversationOf r).key (f.conversationOf r').key).map f.conversationOf =
        ((f.roots.filter (f.meets o.filter)).map f.conversationOf).mergeSort fun c c' =>
          s.le c.key c'.key :=
      List.map_mergeSort fun _ _ _ _ => rfl
    refine ⟨_, (sorts_mergeSort s (fun r => (f.conversationOf r).key) _).congr fun r hr => ?_,
      congrArg Except.ok hsort.symm⟩
    exact h.firstSubject_eq (h.roots r (List.mem_filter.1 hr).1)

theorem arrange_sorts (f : Forest) (subsort : Option RowOrder) (l : List Index) :
    Sorts subsort f.arena.dateOf f.subject l (f.arrange subsort l) := by
  cases subsort with
  | none => exact sorts_none _ _ l
  | some s => exact sorts_mergeSort s f.siblingKey l

theorem arrange_perm (f : Forest) (subsort : Option RowOrder) (l : List Index) :
    (f.arrange subsort l).Perm l :=
  (f.arrange_sorts subsort l).perm

theorem map_messageLine? (f : Forest) (o : ListingStyle) (i : Index) :
    (f.messageLine? o i).map (fun row => (row.container, row.envelope)) =
      (f.arena.message? i).map fun m => (i, m) := by
  unfold messageLine? message?
  cases f.arena.get? i with
  | none => rfl
  | some c => cases hm : c.message <;> simp [hm]

/-- The rows of the tree below `i`. -/
def block (f : Forest) (o : ListingStyle) (i : Index) : List MessageLine :=
  (f.arena.walk (f.arrange o.subsort) i).filterMap (f.messageLine? o)

theorem map_container_lines (f : Forest) (o : ListingStyle) (l : List Index) :
    (l.filterMap (f.messageLine? o)).map (·.container) =
      l.filter fun j => (f.arena.message? j).isSome := by
  rw [List.map_filterMap, ← List.filterMap_eq_filter]
  refine List.filterMap_congr fun j _ => ?_
  have hline := congrArg (Option.map Prod.fst) (f.map_messageLine? o j)
  rw [Option.map_map, Option.map_map] at hline
  refine hline.trans ?_
  cases hm : f.arena.message? j <;> simp [Option.guard, hm]

theorem map_container_block (f : Forest) (o : ListingStyle) (i : Index) :
    (f.block o i).map (·.container) =
      (f.arena.walk (f.arrange o.subsort) i).filter fun j => (f.arena.message? j).isSome :=
  f.map_container_lines o _

theorem Sound.addRows_root (h : f.Sound) (o : ListingStyle) (hi : i ∈ f.arena.indices)
    (rows : Array MessageLine) :
    f.addRows o rows [⟨i, 0⟩] = .ok (rows ++ (f.block o i).toArray) := by
  have hstart : f.ahead (f.arrange o.subsort) [⟨i, 0⟩] =
      f.arena.route (f.arrange o.subsort) (f.size + 1) i := Pending.trail_single
  rw [addRows_eq, hstart]
  exact congrArg (Except.map _) (h.arena.linked.toExcept_route hi (f.arrange_perm o.subsort))

/-- The rows of each conversation are added behind those of the ones before it. -/
theorem Sound.foldlM_addRows (h : f.Sound) (o : ListingStyle) {rs : List Index}
    (hrs : rs ⊆ f.roots) (rows : Array MessageLine) :
    (rs.map f.conversationOf).foldlM (fun rows c => f.addRows o rows [⟨c.root, 0⟩]) rows =
      .ok (rows ++ (rs.flatMap (f.block o)).toArray) := by
  induction rs generalizing rows with
  | nil => exact congrArg Except.ok Array.append_empty.symm
  | cons r rs ih =>
    have hr := h.roots r (hrs List.mem_cons_self)
    rw [List.map_cons, List.foldlM_cons]
    change f.addRows o rows [⟨r, 0⟩] >>= _ = _
    rw [h.addRows_root o hr, ok_bind, ih fun r' hr' => hrs (List.mem_cons_of_mem r hr')]
    simp

theorem Sound.messageLines_eq (h : f.Sound) {rs : List Index} (hrs : rs ⊆ f.roots)
    (hc : f.conversations o = .ok (rs.map f.conversationOf)) :
    f.messageLines o = .ok (rs.flatMap (f.block o)) := by
  rw [messageLines, hc, ok_bind, h.foldlM_addRows o hrs, ok_bind, Array.empty_append]
  rfl

section Tree

variable (h : f.Sound) (o : ListingStyle) (hi : i ∈ f.arena.indices)
include h hi

theorem Sound.block_eq :
    f.block o i = (f.messageLine? o i).toList ++
      (f.arrange o.subsort (f.arena.kids i)).flatMap (f.block o) := by
  rw [block, h.arena.linked.walk_eq (f.arrange_perm o.subsort) hi, List.filterMap_cons,
    List.filterMap_flatMap]
  cases f.messageLine? o i <;> rfl

theorem Sound.block_infix (hj : f.arena.Below j i) : f.block o j <:+: f.block o i :=
  (h.arena.linked.walk_infix (f.arrange_perm o.subsort) hi hj).filterMap _

theorem Sound.map_envelope_block :
    ((f.block o i).map (·.envelope)).Perm (f.messagesBelow i) := by
  have hlines : (f.block o i).map (·.envelope) =
      (f.arena.walk (f.arrange o.subsort) i).filterMap f.arena.message? := by
    rw [block, List.map_filterMap]
    refine List.filterMap_congr fun j _ => ?_
    have hline := congrArg (Option.map Prod.snd) (f.map_messageLine? o j)
    simpa only [Option.map_map, Function.comp_def, Option.map_id'] using hline
  rw [hlines]
  exact (h.arena.linked.walk_perm (f.arrange_perm o.subsort) hi id_perm).filterMap _

end Tree

/-- What the two listings of a forest show. -/
structure Listed (f : Forest) (o : ListingStyle) (lines : List ConversationLine)
    (rows : List MessageLine) : Prop where
  conversations : Sorts o.sort f.arena.dateOf f.firstSubject
    (f.roots.filter (f.meets o.filter)) (lines.map (·.root))
  shown : ∀ r, r ∈ lines.map (·.root) ↔ r ∈ f.roots ∧ ∃ k ∈ f.arena.members r, ∃ e,
    f.envelopes[k]? = some e ∧ Subject.meets e.subject o.filter
  /-- There is one block of rows for each line. -/
  blocks : rows = lines.flatMap fun line => f.block o line.root
  count : ∀ line ∈ lines, (f.block o line.root).length = line.messageCount
  messages : ∀ line ∈ lines, ∃ ms, f.messages line.root = .ok ms ∧
    ((f.block o line.root).map (·.envelope)).Perm ms
  /-- A block starts with the row of its container; then come the blocks of the children. -/
  tree : ∀ i ∈ f.arena.indices, ∃ own kids siblings, f.arena.children i = .ok kids ∧
    Sorts o.subsort f.arena.dateOf f.subject kids siblings ∧
    f.block o i = own ++ siblings.flatMap (f.block o) ∧
    own.map (fun row => (row.container, row.envelope)) =
      ((f.arena.message? i).map fun m => (i, m)).toList
  together : ∀ i ∈ f.arena.indices, ∀ j, f.arena.Below j i → f.block o j <:+: f.block o i

theorem Sound.listed (h : f.Sound) (o : ListingStyle) :
    ∃ lines rows, f.conversationLines o = .ok lines ∧ f.messageLines o = .ok rows ∧
      f.Listed o lines rows := by
  obtain ⟨rs, hsorts, hc⟩ := h.conversations_eq o
  have hmem : ∀ r, r ∈ rs ↔ r ∈ f.roots ∧ f.meets o.filter r := fun r => by
    rw [hsorts.perm.mem_iff, List.mem_filter]
  have hroots : rs ⊆ f.roots := fun r hr => ((hmem r).1 hr).1
  have hlines : f.conversationLines o =
      .ok (rs.map fun r => conversationLine o (f.conversationOf r)) := by
    rw [conversationLines, hc, ok_bind, List.map_map]
    rfl
  have hmap : (rs.map fun r => conversationLine o (f.conversationOf r)).map (·.root) = rs := by
    rw [List.map_map]
    exact List.map_id rs
  refine ⟨_, _, hlines, h.messageLines_eq hroots hc, ?_⟩
  refine
    { conversations := by rwa [hmap]
      shown := fun r => ?_
      blocks := ?_
      count := fun line hline => ?_
      messages := fun line hline => ?_
      tree := fun i hi => ?_
      together := fun i hi j hj => h.block_infix o hi hj }
  · rw [hmap, hmem]
    exact and_congr_right fun hr => h.meets_iff (h.roots r hr)
  · rw [List.flatMap_map]
    rfl
  · obtain ⟨r, hr, rfl⟩ := List.mem_map.1 hline
    have hlength := (h.map_envelope_block o (h.roots r (hroots hr))).length_eq
    rwa [List.length_map] at hlength
  · obtain ⟨r, hr, rfl⟩ := List.mem_map.1 hline
    have hri := h.roots r (hroots hr)
    exact ⟨_, h.messages_eq_ok hri, h.map_envelope_block o hri⟩
  · refine ⟨_, _, _, h.arena.linked.children_eq hi, f.arrange_sorts o.subsort _, h.block_eq o hi, ?_⟩
    rw [← Option.toList_map, f.map_messageLine? o i]

/-- The lines are those of the conversations. -/
theorem map_root_conversationLines {lines : List ConversationLine}
    (h : f.conversationLines o = .ok lines) :
    (f.conversations o).map (·.map (·.root)) = .ok (lines.map (·.root)) := by
  unfold conversationLines at h
  cases hc : f.conversations o with
  | error fault =>
    rw [hc] at h
    cases h
  | ok cs =>
    rw [hc] at h
    cases h
    rw [List.map_map]
    rfl

/-- The containers that have rows below some roots, in the order of the rows. -/
def rowsBelow (f : Forest) (subsort : Option RowOrder) (rs : List Index) : List Index :=
  rs.flatMap fun r => (f.arena.walk (f.arrange subsort) r).filter fun j => (f.arena.message? j).isSome

theorem Listed.map_container {lines : List ConversationLine} {rows : List MessageLine}
    (h : f.Listed o lines rows) :
    rows.map (·.container) = f.rowsBelow o.subsort (lines.map (·.root)) := by
  rw [h.blocks, List.map_flatMap, rowsBelow, List.flatMap_map]
  simp only [map_container_block]

end Forest

end MailThread
