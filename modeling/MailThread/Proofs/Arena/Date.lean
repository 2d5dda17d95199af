import MailThread.Proofs.Arena.Hang
import Mathlib.Algebra.Order.Ring.Rat

namespace MailThread

theorem later_eq_max (d e : Rat) : later d e = max d e := (max_def d e).symm

namespace Arena

variable {a b : Arena} {i j : Index} {l : List Index}

theorem message?_of_get? {c : Container} (h : a.get? i = some c) : a.message? i = c.message := by
  simp [message?, h]

theorem dateOf_eq (a : Arena) (i : Index) : a.dateOf i = ((a.get? i).map (·.date)).getD 0 := by
  unfold dateOf
  cases a.get? i <;> rfl

theorem dateOf_of_get? {c : Container} (h : a.get? i = some c) : a.dateOf i = c.date := by
  simp [dateOf, h]

theorem mem_indices_of_message? {m : Index} (h : a.message? i = some m) : i ∈ a.indices := by
  obtain ⟨c, hc, _⟩ := Option.bind_eq_some_iff.1 h
  exact mem_indices_of_get? hc

/-- The two arenas show the same trees with the same messages; `b` may hold more placeholders without
any link. -/
structure SameTrees (a b : Arena) : Prop where
  parent? : ∀ i, b.parent? i = a.parent? i
  kids : ∀ i, b.kids i = a.kids i
  message? : ∀ i, b.message? i = a.message? i

namespace SameTrees

theorem refl (a : Arena) : a.SameTrees a := ⟨fun _ => rfl, fun _ => rfl, fun _ => rfl⟩

theorem trans {d : Arena} (h : a.SameTrees b) (h' : b.SameTrees d) : a.SameTrees d where
  parent? := fun i => (h'.parent? i).trans (h.parent? i)
  kids := fun i => (h'.kids i).trans (h.kids i)
  message? := fun i => (h'.message? i).trans (h.message? i)

theorem below (h : a.SameTrees b) : b.Below i j ↔ a.Below i j := Below.congr h.parent?

end SameTrees

theorem SameLinks.sameTrees (h : a.SameLinks b) (ha : a.Linked)
    (hm : ∀ i, b.message? i = a.message? i) : a.SameTrees b where
  parent? := h.parent?_eq
  kids := congrFun (h.kids_eq ha)
  message? := hm

theorem message?_append (a : Arena) (i : Index) : a.append.2.message? i = a.message? i := by
  unfold message?
  rw [get?_append]
  split
  next hi => simp [hi]
  next => rfl

theorem Linked.append (h : a.Linked) : a.append.2.Linked := (LinkedAs.append h).linked

theorem Linked.sameTrees_append (h : a.Linked) : a.SameTrees a.append.2 where
  parent? := parent?_append a
  kids := congrFun (LinkedAs.append h).kids_eq
  message? := message?_append a

theorem dateOf_append (a : Arena) (i : Index) : a.append.2.dateOf i = a.dateOf i := by
  rw [dateOf_eq, dateOf_eq, get?_append]
  split
  next hi => simp [hi]
  next => rfl

theorem sameLinks_assign (a : Arena) (id : Text) (i : Index) : a.SameLinks (a.assign id i) :=
  .of_get?_eq fun j => get?_assign a id i j

theorem message?_assign (a : Arena) (id : Text) (k i : Index) :
    (a.assign id k).message? i = a.message? i := by simp only [message?, get?_assign]

theorem dateOf_assign (a : Arena) (id : Text) (k i : Index) :
    (a.assign id k).dateOf i = a.dateOf i := by simp only [dateOf, get?_assign]

theorem message?_update (a : Arena) (i : Index) {f : Container → Container}
    (hf : ∀ c, (f c).message = c.message) (j : Index) :
    (a.update i f).message? j = a.message? j := by
  unfold message?
  rw [get?_update]
  split
  · rw [Option.bind_map]
    exact congrArg (a.get? j).bind (funext hf)
  · rfl

/-- Puts a message into a container; only this container changes, and no link does. -/
theorem Linked.bind_eq (h : a.Linked) (hi : i ∈ a.indices) (m : Index) (d : Rat) :
    ∃ b, a.bind i m d = .ok b ∧ a.SameLinks b ∧ b.ids = a.ids ∧ b.size = a.size ∧
      (∀ j, b.message? j = if j = i then some m else a.message? j) ∧
      ∀ j, b.dateOf j =
        if j = i then (if a.kids i = [] then d else max (a.dateOf i) d) else a.dateOf j := by
  obtain ⟨c, hc⟩ := mem_indices.1 hi
  let fill := fun c : Container =>
    { c with
      message := some m
      date := if c.firstChild.isSome then later c.date d else d }
  have hbind : a.bind i m d = .ok (a.update i fill) := by
    rw [Arena.bind, get_of_get? hc]
    rfl
  refine ⟨_, hbind, .update a i fun _ => rfl, by simp, by simp, fun j => ?_, fun j => ?_⟩
  · unfold message?
    rw [get?_update]
    split
    next hj => simp [hj, hc, fill]
    next => rfl
  · rw [dateOf_eq, dateOf_eq, dateOf_eq, get?_update]
    split
    next hj =>
      subst hj
      simp only [hc, Option.map_some, Option.getD_some, fill, h.firstChild_eq hc, later_eq_max]
      cases a.kids j <;> simp
    next => rfl

theorem get?_foldl_raise (a : Arena) (l : List Index) (d : Rat) (j : Index) :
    (l.foldl (fun a j => a.update j fun c => { c with date := later c.date d }) a).get? j =
      (a.get? j).map fun c => if j ∈ l then { c with date := max c.date d } else c := by
  induction l generalizing a with
  | nil => simp
  | cons i l ih =>
    rw [List.foldl_cons, ih, get?_update]
    obtain rfl | hne := eq_or_ne j i
    · -- a container that comes twice on the way is raised to the same date
      rw [if_pos rfl, Option.map_map]
      by_cases hj : j ∈ l <;> simp [hj, later_eq_max, Function.comp_def]
    · simp [hne]

theorem foldl_raise (l : List Index) (hl : l ⊆ a.indices) (d : Rat) :
    let b := l.foldl (fun a j => a.update j fun c => { c with date := later c.date d }) a
    a.SameLinks b ∧ b.ids = a.ids ∧ b.size = a.size ∧ (∀ j, b.message? j = a.message? j) ∧
      ∀ j, b.dateOf j = if j ∈ l then max (a.dateOf j) d else a.dateOf j := by
  have hget := get?_foldl_raise a l d
  have hids : (l.foldl (fun a j => a.update j fun c => { c with date := later c.date d }) a).ids =
      a.ids :=
    List.foldlRecOn (motive := fun b : Arena => b.ids = a.ids) l _ rfl fun b hb i _ => by
      rw [ids_update, hb]
  intro b
  have hlinks : a.SameLinks b := fun j => by
    rw [hget, Option.map_map]
    congr 1
    funext c
    dsimp only [Function.comp]
    split <;> rfl
  refine ⟨hlinks, hids, hlinks.size_eq, fun j => ?_, fun j => ?_⟩
  · unfold message?
    rw [hget, Option.bind_map]
    congr 1
    funext c
    dsimp only [Function.comp]
    split <;> rfl
  · rw [dateOf_eq, dateOf_eq, hget]
    split
    next hj =>
      obtain ⟨c, hc⟩ := mem_indices.1 (hl hj)
      simp [hc]
    next => simp

/-- Raises the dates of a container and of all above it, and nothing else. -/
theorem Rooted.raise_eq (h : a.Rooted) (hi : i ∈ a.indices) (d : Rat) :
    ∃ b, a.raise i d = (b, none) ∧ a.SameLinks b ∧ b.ids = a.ids ∧ b.size = a.size ∧
      (∀ j, b.message? j = a.message? j) ∧
      ∀ j, (a.Below i j → b.dateOf j = max (a.dateOf j) d) ∧
        (¬ a.Below i j → b.dateOf j = a.dateOf j) := by
  obtain ⟨l, hl⟩ := h i hi
  obtain ⟨hlinks, hids, hsize, hmessage, hdate⟩ :=
    foldl_raise l (fun _ hj => hl.mem_indices hj) d
  refine ⟨_, by rw [raise, wayUp_of_path hl], hlinks, hids, hsize, hmessage, fun j => ?_⟩
  rw [hdate, ← hl.mem_iff_below]
  exact ⟨fun hj => if_pos hj, fun hj => if_neg hj⟩

end Arena

end MailThread
