import MailThread.Proofs.Arena.Sound
import MailThread.Proofs.Forest.Stack

namespace MailThread

def Container.core (c : Container) : Container :=
  { c with shownParent := none, indentation := 0, showsSubject := true }

namespace Arena

variable {a b : Arena} {es : Array Envelope} {i j : Index}

def shownParent? (a : Arena) (i : Index) : Option Index := (a.get? i).bind (·.shownParent)

def indentationOf (a : Arena) (i : Index) : Rat :=
  match a.get? i with
  | some c => c.indentation
  | none => 0

/-- The parent of a container, if it holds a message. -/
def messageParent? (a : Arena) (i : Index) : Option Index :=
  (a.parent? i).filter fun p => (a.message? p).isSome

/-- The two arenas differ in nothing but what rows show. -/
structure Redrawn (a b : Arena) : Prop where
  ids : b.ids = a.ids
  core : ∀ i, (b.get? i).map Container.core = (a.get? i).map Container.core

namespace Redrawn

theorem refl (a : Arena) : a.Redrawn a := ⟨rfl, fun _ => rfl⟩

theorem symm (h : a.Redrawn b) : b.Redrawn a := ⟨h.ids.symm, fun i => (h.core i).symm⟩

theorem trans {d : Arena} (h : a.Redrawn b) (h' : b.Redrawn d) : a.Redrawn d :=
  ⟨h'.ids.trans h.ids, fun i => (h'.core i).trans (h.core i)⟩

theorem update (a : Arena) (i : Index) {f : Container → Container}
    (hf : ∀ c, (f c).core = c.core) : a.Redrawn (a.update i f) := by
  refine ⟨ids_update a i f, fun j => ?_⟩
  rw [get?_update]
  split
  · rw [Option.map_map]
    exact congrArg (fun g => (a.get? j).map g) (funext hf)
  · rfl

variable (h : a.Redrawn b)
include h

theorem map_eq {α : Type} {field : Container → α} (hf : ∀ c, field c.core = field c) (i : Index) :
    (b.get? i).map field = (a.get? i).map field := by
  have he : field = field ∘ Container.core := funext fun c => (hf c).symm
  rw [he, ← Option.map_map, h.core i, Option.map_map]

theorem sameLinks : a.SameLinks b := h.map_eq fun _ => rfl

theorem message?_eq (i : Index) : b.message? i = a.message? i := by
  have he : ∀ x : Arena, x.message? i = ((x.get? i).map (·.message)).bind id := fun x => by
    rw [Option.bind_map]
    rfl
  rw [he, he, h.map_eq fun _ => rfl]

theorem dateOf_eq (i : Index) : b.dateOf i = a.dateOf i := by
  rw [Arena.dateOf_eq, Arena.dateOf_eq, h.map_eq fun _ => rfl]

theorem find?_eq (id : Text) : b.find? id = a.find? id := find?_congr h.ids id

theorem mem_indices : i ∈ b.indices ↔ i ∈ a.indices := h.sameLinks.mem_indices

theorem below : b.Below i j ↔ a.Below i j := h.sameLinks.below

theorem holds {k : Nat} {e : Envelope} : b.Holds es i k e ↔ a.Holds es i k e := by
  rw [Holds, h.message?_eq, Holds]

theorem datesBelow (i : Index) : b.datesBelow es i = a.datesBelow es i := by
  simp only [Arena.datesBelow, h.below, h.holds]

theorem messagesAbove_eq (i : Index) : b.messagesAbove i = a.messagesAbove i := by
  simp only [messagesAbove, h.below, h.message?_eq]

theorem messageParent?_eq (i : Index) : b.messageParent? i = a.messageParent? i := by
  simp only [messageParent?, h.message?_eq, h.sameLinks.parent?_eq]

theorem sound (hs : a.Sound es) : b.Sound es where
  ready :=
    { linked := h.sameLinks.linked hs.linked
      named := hs.ready.named.congr h.ids fun _ => h.mem_indices.2
      topmost := fun i hi => by
        rw [h.message?_eq] at hi
        rw [h.sameLinks.parent?_eq, hs.ready.topmost i hi] }
  awaited := fun i hi hm => by
    rw [h.message?_eq] at hm
    rw [h.sameLinks.kids_eq hs.linked]
    exact hs.awaited i (h.mem_indices.1 hi) hm
  bound := fun hm => hs.bound (h.message?_eq _ ▸ hm)
  pointed := fun he => by rw [h.message?_eq, hs.pointed he]
  owned := fun hj x => by
    rw [h.find?_eq]
    exact hs.owned (h.holds.1 hj) x
  latest := fun i hi => by
    rw [h.datesBelow, h.dateOf_eq]
    exact hs.latest i (h.mem_indices.1 hi)
  ordered := fun i => by
    rw [h.sameLinks.kids_eq hs.linked]
    apply (hs.ordered i).imp
    intro j k hjk
    unfold Earlier at hjk ⊢
    rwa [h.message?_eq, h.message?_eq]

theorem outlineFrom_eq (arrange : List Index → List Index) (depth n : Nat) (i : Index) :
    b.outlineFrom arrange depth n i = a.outlineFrom arrange depth n i := by
  induction depth generalizing n i with
  | zero => rfl
  | succ depth ih =>
    have hmessage : (b.get? i).map (·.message) = (a.get? i).map (·.message) :=
      h.map_eq (fun _ => rfl) i
    cases hc : a.get? i with
    | none =>
      rw [hc] at hmessage
      simp only [outlineFrom, hc, Option.map_eq_none_iff.1 hmessage, h.sameLinks.size_eq]
    | some c =>
      rw [hc] at hmessage
      obtain ⟨d, hd, hm⟩ := Option.map_eq_some_iff.1 hmessage
      cases hk : a.children i with
      | error fault => simp only [outlineFrom, hc, hd, h.sameLinks.children_eq, hk]
      | ok kids =>
        rw [outlineFrom_of_get? hc hk, outlineFrom_of_get? hd (h.sameLinks.children_eq i ▸ hk), hm]
        exact congrArg (Trail.cons _) (Trail.concatMap_congr fun k _ => ih _ k)

theorem visits_eq : b.visits = a.visits := by
  funext arrange n i
  rw [visits, h.outlineFrom_eq, h.sameLinks.size_eq, visits]

end Redrawn

end Arena

namespace Layout

open Arena

variable {a : Arena} {l l₁ l₂ : Layout} {es : Array Envelope} {suppress : Bool} {v : Visit}
  {vs ws : List Visit} {j r : Index} {c : Container}

theorem get?_reset (a : Arena) (i : Index) :
    (reset a).get? i = (a.get? i).map fun c =>
      { c with indentation := 0, showsSubject := true, shownParent := c.parent } := by
  cases i with
  | stray q => rfl
  | slot n => simp only [reset, get?, Index.lookup, Array.getElem?_map]

theorem reset_redrawn (a : Arena) : a.Redrawn (reset a) := by
  refine ⟨rfl, fun i => ?_⟩
  rw [get?_reset, Option.map_map]
  rfl

theorem indentationOf_reset (a : Arena) (i : Index) : (reset a).indentationOf i = 0 := by
  rw [indentationOf, get?_reset]
  cases a.get? i <;> rfl

theorem shownParent?_reset (a : Arena) (i : Index) : (reset a).shownParent? i = a.parent? i := by
  rw [shownParent?, get?_reset, Option.bind_map]
  rfl

theorem settle_redrawn (es : Array Envelope) (suppress : Bool) (l : Layout) (v : Visit) :
    l.arena.Redrawn (l.settle es suppress v).arena := by
  cases hc : l.arena.get? v.index with
  | none =>
    simp only [settle, hc]
    exact .refl l.arena
  | some c =>
    cases hm : c.message with
    | none =>
      simp only [settle, hc, hm]
      exact .update l.arena v.index fun _ => rfl
    | some m =>
      cases hf : l.firstSubject with
      | none =>
        simp only [settle, hc, hm, hf]
        exact .update l.arena v.index fun _ => rfl
      | some first =>
        simp only [settle, hc, hm, hf]
        refine Redrawn.trans (.update l.arena v.index ?_) (.update _ v.index ?_)
        · exact fun _ => rfl
        · exact fun _ => rfl

theorem settle_other (hj : j ≠ v.index) :
    (l.settle es suppress v).arena.get? j = l.arena.get? j := by
  cases hc : l.arena.get? v.index with
  | none => simp only [settle, hc]
  | some c =>
    cases hm : c.message with
    | none => simp only [settle, hc, hm, get?_update, if_neg hj]
    | some m =>
      cases hf : l.firstSubject <;> simp only [settle, hc, hm, hf, get?_update, if_neg hj]

def underPlaceholder (a : Arena) (c : Container) : Bool :=
  match c.parent with
  | some p => ((a.get? p).map (·.isPlaceholder)).getD false
  | none => false

theorem settle_own (hc : l.arena.get? v.index = some c) :
    (l.settle es suppress v).arena.indentationOf v.index = v.level ∧
      (l.settle es suppress v).arena.shownParent? v.index =
        if underPlaceholder l.arena c then none else c.shownParent := by
  unfold indentationOf shownParent? underPlaceholder
  cases hp : c.parent <;> cases hm : c.message <;> cases hf : l.firstSubject <;>
    simp [settle, hc, hp, hm, hf, get?_update]

theorem settle_order (l : Layout) (v : Visit) :
    (l.settle es suppress v).order =
      if (l.arena.message? v.index).isSome ∧ v.index ∉ l.order then l.order ++ [v.index]
      else l.order := by
  unfold order
  cases hc : l.arena.get? v.index with
  | none => simp [settle, hc, message?]
  | some c =>
    rw [message?_of_get? hc]
    cases hm : c.message with
    | none => simp [settle, hc, hm]
    | some m =>
      cases hf : l.firstSubject <;> by_cases hv : v.index ∈ l.emitted <;>
        simp [settle, hc, hm, hf, hv]

/-- The layout `l₂` comes out of `l₁` by visits to containers: what a row shows is told by its
visit, and the visits to messages are the rows. -/
structure Settles (l₁ l₂ : Layout) (vs : List Visit) : Prop where
  redrawn : l₁.arena.Redrawn l₂.arena
  other : ∀ j ∉ vs.map Visit.index, l₂.arena.get? j = l₁.arena.get? j
  indentation : (vs.map Visit.index).Nodup → ∀ v ∈ vs, v.index ∈ l₁.arena.indices →
    l₂.arena.indentationOf v.index = v.level
  shownParent : (vs.map Visit.index).Nodup → ∀ v ∈ vs,
    l₁.arena.shownParent? v.index = l₁.arena.parent? v.index →
    l₂.arena.shownParent? v.index = l₁.arena.messageParent? v.index
  order : (vs.map Visit.index).Nodup → (∀ v ∈ vs, v.index ∉ l₁.order) →
    l₂.order = l₁.order ++ (vs.map Visit.index).filter fun i => (l₁.arena.message? i).isSome

namespace Settles

theorem nil (h₁ : l₂.arena = l₁.arena) (h₂ : l₂.order = l₁.order) : l₁.Settles l₂ [] where
  redrawn := h₁ ▸ .refl l₁.arena
  other := fun _ _ => by rw [h₁]
  indentation := fun _ _ hv => absurd hv List.not_mem_nil
  shownParent := fun _ _ hv => absurd hv List.not_mem_nil
  order := fun _ _ => by simp [h₂]

theorem single (h : l.arena.Linked) (v : Visit) : l.Settles (l.settle es suppress v) [v] where
  redrawn := settle_redrawn es suppress l v
  other := fun j hj => settle_other (by simpa using hj)
  indentation := fun _ u hu hi => by
    rw [List.mem_singleton.1 hu] at hi ⊢
    obtain ⟨c, hc⟩ := mem_indices.1 hi
    exact (settle_own hc).1
  shownParent := fun _ u hu hshown => by
    rw [List.mem_singleton.1 hu] at hshown ⊢
    cases hc : l.arena.get? v.index with
    | none => simp [settle, hc, shownParent?, messageParent?, parent?]
    | some c =>
      rw [shownParent?, hc, parent?_of_get? hc, Option.bind_some] at hshown
      rw [(settle_own hc).2, hshown, messageParent?, parent?_of_get? hc, underPlaceholder]
      cases hp : c.parent with
      | none => simp
      | some p =>
        obtain ⟨q, hq⟩ := mem_indices.1 (h.rooted.parent_mem ((parent?_of_get? hc).trans hp))
        cases hm : q.message <;>
          simp [hq, Container.isPlaceholder, message?_of_get? hq, hm, Option.filter]
  order := fun _ hnew => by
    rw [settle_order]
    cases hm : l.arena.message? v.index <;> simp [hm, hnew v (List.mem_singleton_self v)]

theorem trans {l₃ : Layout} (h : l₁.Settles l₂ vs) (h' : l₂.Settles l₃ ws) :
    l₁.Settles l₃ (vs ++ ws) := by
  have hmessage := h.redrawn.message?_eq
  -- what the first visits have set is not touched by the later ones
  have hkept : (vs.map Visit.index ++ ws.map Visit.index).Nodup → ∀ v ∈ vs,
      l₃.arena.get? v.index = l₂.arena.get? v.index := fun hnodup v hv =>
    h'.other v.index (List.disjoint_of_nodup_append hnodup (List.mem_map_of_mem hv))
  have hlate : (vs.map Visit.index ++ ws.map Visit.index).Nodup → ∀ w ∈ ws,
      l₂.arena.get? w.index = l₁.arena.get? w.index := fun hnodup w hw =>
    h.other w.index fun hwv => List.disjoint_of_nodup_append hnodup hwv (List.mem_map_of_mem hw)
  refine ⟨h.redrawn.trans h'.redrawn, fun j hj => ?_, fun hnodup v hv hi => ?_,
    fun hnodup v hv hshown => ?_, fun hnodup hnew => ?_⟩
  all_goals rw [List.map_append] at *
  · rw [List.mem_append, not_or] at hj
    rw [h'.other j hj.2, h.other j hj.1]
  · rcases List.mem_append.1 hv with hv | hv
    · rw [indentationOf, hkept hnodup v hv, ← indentationOf]
      exact h.indentation hnodup.of_append_left v hv hi
    · exact h'.indentation hnodup.of_append_right v hv (h.redrawn.mem_indices.2 hi)
  · rcases List.mem_append.1 hv with hv | hv
    · rw [shownParent?, hkept hnodup v hv, ← shownParent?]
      exact h.shownParent hnodup.of_append_left v hv hshown
    · rw [h'.shownParent hnodup.of_append_right v hv]
      · exact h.redrawn.messageParent?_eq v.index
      · rw [shownParent?, hlate hnodup v hv, ← shownParent?, hshown,
          h.redrawn.sameLinks.parent?_eq]
  · have hfirst := h.order hnodup.of_append_left fun v hv => hnew v (List.mem_append_left ws hv)
    rw [h'.order hnodup.of_append_right fun w hw hold => ?_, hfirst, List.filter_append,
      List.append_assoc]
    · simp only [hmessage]
    · rw [hfirst, List.mem_append] at hold
      rcases hold with hold | hold
      · exact hnew w (List.mem_append_right vs hw) hold
      · exact List.disjoint_of_nodup_append hnodup (List.mem_filter.1 hold).1
          (List.mem_map_of_mem hw)

end Settles

theorem lostParent?_eq_none (h : a.Rooted) (i : Index) : lostParent? a i = none := by
  unfold lostParent?
  split
  next c hc =>
    rw [Option.filter_eq_none_iff]
    intro p hp
    have hparent : a.parent? i = some p := (parent?_of_get? hc).trans hp
    obtain ⟨d, hd⟩ := mem_indices.1 (h.parent_mem hparent)
    simp [hd]
  next => rfl

/-- Settles the containers of a walk that ends with `fault`. Of one whose parent is lost only the level
is set, and the layout ends there. -/
def settleAll (es : Array Envelope) (suppress : Bool) (fault : Option Fault) :
    Layout → List Visit → Layout × Option Fault
  | l, [] => (l, fault)
  | l, v :: vs =>
    match lostParent? l.arena v.index with
    | some p =>
      ({ l with arena := l.arena.update v.index fun c => { c with indentation := (v.level : Rat) } },
        some (.noContainer p l.arena.size))
    | none => settleAll es suppress fault (l.settle es suppress v) vs

def ahead (a : Arena) (stack : List (Pending Visit)) : Trail Visit :=
  Pending.trail (a.size + 1) (fun depth v => a.outlineFrom id depth v.level v.index) stack

section Ahead

variable {p : Pending Visit} {rest : List (Pending Visit)} {kids : List Index} {fault : Fault}

theorem ahead_redrawn {b : Arena} (h : a.Redrawn b) (stack : List (Pending Visit)) :
    ahead b stack = ahead a stack := by
  simp only [ahead, h.sameLinks.size_eq, h.outlineFrom_eq]

theorem ahead_of_deep (h : a.size < p.depth) :
    ahead a (p :: rest) = { visited := [], fault := some .endless } :=
  Pending.trail_deep h rfl (by simp)

theorem ahead_of_none (h : ¬ a.size < p.depth) (hc : a.get? p.entry.index = none) :
    ahead a (p :: rest) =
      { visited := [], fault := some (.noContainer p.entry.index a.size) } := by
  apply Pending.trail_stop (by omega) _ (by simp)
  intro depth
  simp only [outlineFrom, hc]

theorem ahead_of_error (h : ¬ a.size < p.depth) (hc : a.get? p.entry.index = some c)
    (hk : a.children p.entry.index = .error fault) :
    ahead a (p :: rest) = { visited := [p.entry], fault := some fault } := by
  apply Pending.trail_stop (by omega) _ (by simp)
  intro depth
  simp only [outlineFrom, hc, hk]

theorem ahead_push (h : ¬ a.size < p.depth) (hc : a.get? p.entry.index = some c)
    (hk : a.children p.entry.index = .ok kids) :
    ahead a (p :: rest) = (ahead a (Pending.below p.depth (kids.map
      (⟨·, if c.message.isSome then p.entry.level + 1 else p.entry.level⟩)) ++ rest)).cons
        p.entry := by
  apply Pending.trail_push (by omega)
  intro depth
  rw [outlineFrom_of_get? hc hk, Trail.concatMap_map, id_eq]

end Ahead

/-- Whatever the links are, the loop of a layout settles the containers that the walks from its stack
visit. -/
theorem descend_eq (es : Array Envelope) (suppress : Bool) (l : Layout)
    (stack : List (Pending Visit)) :
    descend es suppress l stack =
      settleAll es suppress (ahead l.arena stack).fault l (ahead l.arena stack).visited := by
  fun_induction descend es suppress l stack with
  | case1 l => rfl
  | case2 l p rest h => rw [ahead_of_deep h, settleAll]
  | case3 l p rest h hc => rw [ahead_of_none h hc, settleAll]
  | case4 l p rest h c hc lost hlost =>
    -- whatever lies below, the visit of this container is the last one
    cases hk : l.arena.children p.entry.index with
    | error fault =>
      rw [ahead_of_error h hc hk]
      simp only [settleAll, hlost]
    | ok kids =>
      rw [ahead_push h hc hk]
      simp only [Trail.cons, settleAll, hlost]
  | case5 l p rest h c hc hlost settled fault hk =>
    rw [(settle_redrawn es suppress l p.entry).sameLinks.children_eq] at hk
    rw [ahead_of_error h hc hk, settleAll, hlost]
    rfl
  | case6 l p rest h c hc hlost level settled kids hk ih =>
    have hred := settle_redrawn es suppress l p.entry
    rw [hred.sameLinks.children_eq] at hk
    rw [ih, ahead_redrawn hred, ahead_push h hc hk]
    simp only [Trail.cons, settleAll, hlost]
    rfl

theorem addTree_eq_settleAll (l : Layout) (r : Index) :
    l.addTree es suppress r = settleAll es suppress (l.arena.outline r).fault
      { l with firstSubject := none } (l.arena.outline r).visited := by
  have hstart : ahead l.arena [⟨⟨r, 0⟩, 0⟩] = l.arena.outline r := Pending.trail_single
  rw [addTree, descend_eq, hstart]

theorem settleAll_spec (es : Array Envelope) (suppress : Bool) (h : l.arena.Linked)
    (vs : List Visit) : ∃ l', settleAll es suppress none l vs = (l', none) ∧ l.Settles l' vs := by
  induction vs generalizing l with
  | nil => exact ⟨l, rfl, .nil rfl rfl⟩
  | cons v vs ih =>
    have hv : l.Settles (l.settle es suppress v) [v] := .single h v
    obtain ⟨l', hl', hsettles⟩ := ih (hv.redrawn.sameLinks.linked h)
    refine ⟨l', ?_, hv.trans hsettles⟩
    rw [settleAll, lostParent?_eq_none h.rooted]
    exact hl'

theorem addTree_spec (es : Array Envelope) (suppress : Bool) (h : l.arena.Linked)
    (hr : r ∈ l.arena.indices) :
    ∃ l', l.addTree es suppress r = (l', none) ∧ l.Settles l' (l.arena.visits id 0 r) := by
  obtain ⟨l', hl', hsettles⟩ := settleAll_spec es suppress
    (l := { l with firstSubject := none }) h (l.arena.outline r).visited
  refine ⟨l', ?_, hsettles.redrawn, hsettles.other, hsettles.indentation, hsettles.shownParent,
    hsettles.order⟩
  rw [addTree_eq_settleAll, (h.outline_spec hr id_perm).1, hl']

theorem addTrees_spec (es : Array Envelope) (suppress : Bool) (h : l.arena.Linked)
    {rs : List Index} (hrs : ∀ r ∈ rs, r ∈ l.arena.indices) :
    ∃ l', addTrees es suppress l rs = (l', none) ∧
      l.Settles l' (rs.flatMap (l.arena.visits id 0)) := by
  induction rs generalizing l with
  | nil => exact ⟨l, rfl, .nil rfl rfl⟩
  | cons r rs ih =>
    obtain ⟨l₁, hl₁, hfirst⟩ := addTree_spec es suppress h (hrs r List.mem_cons_self)
    have hin : ∀ r' ∈ rs, r' ∈ l₁.arena.indices := fun r' hr' =>
      hfirst.redrawn.mem_indices.2 (hrs r' (List.mem_cons_of_mem r hr'))
    obtain ⟨l', hl', hrest⟩ := ih (hfirst.redrawn.sameLinks.linked h) hin
    refine ⟨l', ?_, ?_⟩
    · rw [addTrees, hl₁]
      exact hl'
    · rw [hfirst.redrawn.visits_eq] at hrest
      exact hfirst.trans hrest

end Layout

namespace Forest

variable {f g : Forest}

/-- A forest whose arena and envelopes fit together, with roots in the arena. -/
structure Sound (f : Forest) : Prop where
  arena : f.arena.Sound f.envelopes
  roots : ∀ r ∈ f.roots, r ∈ f.arena.indices

/-- The two forests differ in nothing but what rows show and in which order. -/
structure Redrawn (f g : Forest) : Prop where
  arena : f.arena.Redrawn g.arena
  envelopes : g.envelopes = f.envelopes
  roots : g.roots = f.roots

theorem Redrawn.refl (f : Forest) : f.Redrawn f := ⟨.refl f.arena, rfl, rfl⟩

theorem Redrawn.symm (h : f.Redrawn g) : g.Redrawn f :=
  ⟨h.arena.symm, h.envelopes.symm, h.roots.symm⟩

theorem Redrawn.trans {f' : Forest} (h : f.Redrawn g) (h' : g.Redrawn f') : f.Redrawn f' :=
  ⟨h.arena.trans h'.arena, h'.envelopes.trans h.envelopes, h'.roots.trans h.roots⟩

theorem Redrawn.sound (h : f.Redrawn g) (hf : f.Sound) : g.Sound where
  arena := by
    rw [h.envelopes]
    exact h.arena.sound hf.arena
  roots := fun r hr => h.arena.mem_indices.2 (hf.roots r (h.roots ▸ hr))

/-- The visits of a layout, tree by tree. -/
def visits (f : Forest) : List Visit := f.roots.flatMap (f.arena.visits id 0)

theorem Sound.layOut_eq (h : f.Sound) (suppress : Bool) :
    ∃ l : Layout, f.layOut suppress = ({ f with arena := l.arena, order := l.order }, none) ∧
      Layout.Settles { arena := Layout.reset f.arena } l f.visits := by
  have hreset := Layout.reset_redrawn f.arena
  obtain ⟨l, hl, hsettles⟩ := Layout.addTrees_spec f.envelopes suppress
    (l := { arena := Layout.reset f.arena }) (hreset.sameLinks.linked h.arena.linked)
    fun r hr => hreset.mem_indices.2 (h.roots r hr)
  rw [hreset.visits_eq] at hsettles
  exact ⟨l, by rw [layOut, Layout.compute, hl], hsettles⟩

theorem Sound.layOut_spec (h : f.Sound) (suppress : Bool) :
    ∃ g, f.layOut suppress = (g, none) ∧ f.Redrawn g := by
  obtain ⟨l, hl, hsettles⟩ := h.layOut_eq suppress
  exact ⟨_, hl, (Layout.reset_redrawn f.arena).trans hsettles.redrawn, rfl, rfl⟩

/-- Lays a forest out again and again, up to the first fault. -/
def layOuts (f : Forest) : List Bool → Forest × Option Fault
  | [] => (f, none)
  | suppress :: rest =>
    match f.layOut suppress with
    | (g, some fault) => (g, some fault)
    | (g, none) => g.layOuts rest

theorem Sound.layOuts_spec (h : f.Sound) (ss : List Bool) :
    ∃ g, f.layOuts ss = (g, none) ∧ f.Redrawn g := by
  induction ss generalizing f with
  | nil => exact ⟨f, rfl, .refl f⟩
  | cons s ss ih =>
    obtain ⟨f', hf', hr⟩ := h.layOut_spec s
    obtain ⟨g, hg, hr'⟩ := ih (hr.sound h)
    refine ⟨g, ?_, hr.trans hr'⟩
    rw [layOuts, hf']
    exact hg

end Forest

end MailThread
