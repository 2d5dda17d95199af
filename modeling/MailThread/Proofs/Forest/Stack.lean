import MailThread.Listing.Basic
import MailThread.Proofs.Forest.Visits

namespace MailThread

namespace Pending

variable {α β : Type} {bound : Nat} {walk : Nat → α → Trail β} {p : Pending α}
  {entries : List α} {rest : List (Pending α)} {x : β} {t : Trail β}

/-- What a stack stands for: the walks from its entries, the top one first. A walk may go down as far as
its entry leaves it. -/
def trail (bound : Nat) (walk : Nat → α → Trail β) (stack : List (Pending α)) : Trail β :=
  Trail.concatMap (fun p => walk (bound - p.depth) p.entry) stack

theorem trail_cons : trail bound walk (p :: rest) =
    (walk (bound - p.depth) p.entry).append (trail bound walk rest) := rfl

theorem trail_of_fault (h : walk (bound - p.depth) p.entry = t) (ht : t.fault ≠ none) :
    trail bound walk (p :: rest) = t := by
  rw [trail_cons, h]
  exact Trail.append_of_fault ht

theorem trail_deep (hdepth : bound ≤ p.depth) (h : walk 0 p.entry = t) (ht : t.fault ≠ none) :
    trail bound walk (p :: rest) = t := by
  apply trail_of_fault _ ht
  rwa [Nat.sub_eq_zero_of_le hdepth]

theorem trail_stop (hdepth : p.depth < bound) (h : ∀ depth, walk (depth + 1) p.entry = t)
    (ht : t.fault ≠ none) : trail bound walk (p :: rest) = t := by
  apply trail_of_fault _ ht
  rw [show bound - p.depth = bound - p.depth - 1 + 1 by omega, h]

theorem trail_single : trail bound walk [p] = walk (bound - p.depth) p.entry := Trail.append_nil _

theorem trail_push (hdepth : p.depth < bound)
    (h : ∀ depth, walk (depth + 1) p.entry = (Trail.concatMap (walk depth) entries).cons x) :
    trail bound walk (p :: rest) = (trail bound walk (below p.depth entries ++ rest)).cons x := by
  have hbelow : trail bound walk (below p.depth entries) =
      Trail.concatMap (walk (bound - (p.depth + 1))) entries := Trail.concatMap_map _ entries
  rw [trail_cons, show bound - p.depth = bound - (p.depth + 1) + 1 by omega, h, Trail.cons_append,
    ← hbelow]
  exact congrArg (Trail.cons x) Trail.concatMap_append.symm

end Pending

namespace Arena

variable {a : Arena} {arrange : List Index → List Index} {depth : Nat} {i : Index} {c : Container}
  {kids : List Index} {fault : Fault}

def route (a : Arena) (arrange : List Index → List Index) (depth : Nat) (i : Index) : Trail Index :=
  (a.outlineFrom arrange depth 0 i).map Visit.index

theorem route_of_none (hc : a.get? i = none) :
    a.route arrange (depth + 1) i = { visited := [], fault := some (.noContainer i a.size) } := by
  simp only [route, outlineFrom, hc]
  rfl

theorem route_of_error (hc : a.get? i = some c) (hk : a.children i = .error fault) :
    a.route arrange (depth + 1) i = { visited := [i], fault := some fault } := by
  simp only [route, outlineFrom, hc, hk]
  rfl

theorem route_of_get? (hc : a.get? i = some c) (hk : a.children i = .ok kids) :
    a.route arrange (depth + 1) i =
      (Trail.concatMap (a.route arrange depth) (arrange kids)).cons i := by
  rw [route, outlineFrom_of_get? hc hk, Trail.map_cons, Trail.map_concatMap]
  exact congrArg (Trail.cons i) (Trail.concatMap_congr fun k _ => map_index_outlineFrom)

theorem Linked.toExcept_route (h : a.Linked) (hi : i ∈ a.indices)
    (harr : ∀ l, (arrange l).Perm l) :
    (a.route arrange (a.size + 1) i).toExcept = .ok (a.walk arrange i) := by
  have hfault : (a.route arrange (a.size + 1) i).fault = none := (h.outline_spec hi harr).1
  rw [Trail.toExcept, hfault]
  rfl

end Arena

namespace Forest

open Arena

variable {f : Forest} {o : ListingStyle}

/-- The containers that a loop with this stack has still to go to. -/
def ahead (f : Forest) (arrange : List Index → List Index) (stack : List (Pending Index)) :
    Trail Index :=
  Pending.trail (f.size + 1) (f.arena.route arrange) stack

section Ahead

variable {arrange : List Index → List Index} {p : Pending Index} {rest : List (Pending Index)}
  {c : Container} {kids : List Index} {fault : Fault}

theorem ahead_of_deep (h : f.size < p.depth) :
    f.ahead arrange (p :: rest) = { visited := [], fault := some .endless } :=
  Pending.trail_deep h rfl (by simp)

theorem ahead_of_none (h : ¬ f.size < p.depth) (hc : f.arena.get? p.entry = none) :
    f.ahead arrange (p :: rest) =
      { visited := [], fault := some (.noContainer p.entry f.size) } :=
  Pending.trail_stop (by omega) (fun _ => route_of_none hc) (by simp)

theorem ahead_of_error (h : ¬ f.size < p.depth) (hc : f.arena.get? p.entry = some c)
    (hk : f.arena.children p.entry = .error fault) :
    f.ahead arrange (p :: rest) = { visited := [p.entry], fault := some fault } :=
  Pending.trail_stop (by omega) (fun _ => route_of_error hc hk) (by simp)

theorem ahead_push (h : ¬ f.size < p.depth) (hc : f.arena.get? p.entry = some c)
    (hk : f.arena.children p.entry = .ok kids) :
    f.ahead arrange (p :: rest) =
      (f.ahead arrange (Pending.below p.depth (arrange kids) ++ rest)).cons p.entry :=
  Pending.trail_push (by omega) fun _ => route_of_get? hc hk

end Ahead

/-- Whatever the links are, the loop over messages gives those that it has and behind them those of the
containers it has still to go to. -/
theorem collect_eq (f : Forest) (messages : Array Index) (stack : List (Pending Index)) :
    f.collect messages stack =
      (f.ahead id stack).toExcept.map fun is =>
        messages ++ (is.filterMap f.arena.message?).toArray := by
  fun_induction f.collect messages stack with
  | case1 messages => simp [ahead, Pending.trail, Trail.concatMap, Trail.toExcept, Except.map]
  | case2 messages p rest h => rw [ahead_of_deep h]; rfl
  | case3 messages p rest h hc => rw [ahead_of_none h hc]; rfl
  | case4 messages p rest h c hc fault hk => rw [ahead_of_error h hc hk]; rfl
  | case5 messages p rest h c hc kids hk ih =>
    rw [ih, ahead_push h hc hk, Trail.toExcept_cons, except_map_map]
    refine congrArg (Except.map · _) (funext fun is => ?_)
    rw [List.filterMap_cons, message?_of_get? hc]
    cases c.message <;> simp

theorem messages_eq_route (f : Forest) (i : Index) :
    f.messages i = (f.arena.route id (f.size + 1) i).toExcept.map (·.filterMap f.arena.message?) := by
  have hstart : f.ahead id [⟨i, 0⟩] = f.arena.route id (f.size + 1) i := Pending.trail_single
  have hmessages : f.messages i = (f.collect #[] [⟨i, 0⟩]).map (·.toList) := rfl
  rw [hmessages, collect_eq, hstart, except_map_map]
  simp only [Array.toList_append]
  rfl

theorem addRows_eq (f : Forest) (o : ListingStyle) (rows : Array MessageLine)
    (stack : List (Pending Index)) :
    f.addRows o rows stack =
      (f.ahead (f.arrange o.subsort) stack).toExcept.map fun is =>
        rows ++ (is.filterMap (f.messageLine? o)).toArray := by
  fun_induction f.addRows o rows stack with
  | case1 rows => simp [ahead, Pending.trail, Trail.concatMap, Trail.toExcept, Except.map]
  | case2 rows p rest h => rw [ahead_of_deep h]; rfl
  | case3 rows p rest h hc => rw [ahead_of_none h hc]; rfl
  | case4 rows p rest h c hc fault hk => rw [ahead_of_error h hc hk]; rfl
  | case5 rows p rest h c hc kids hk ih =>
    rw [ih, ahead_push h hc hk, Trail.toExcept_cons, except_map_map]
    refine congrArg (Except.map · _) (funext fun is => ?_)
    rw [List.filterMap_cons]
    cases f.messageLine? o p.entry <;> simp

end Forest

end MailThread
