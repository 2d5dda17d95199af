import MailThread.Forest.Audit

namespace MailThread.Arena

variable {a : Arena} {i j : Index}

def message? (a : Arena) (i : Index) : Option Index := (a.get? i).bind (·.message)

theorem slot_mem_indices {n : Nat} : .slot n ∈ a.indices ↔ n < a.size := by
  simp [indices, List.mem_map, List.mem_range]

theorem length_indices (a : Arena) : a.indices.length = a.size := by simp [indices]

theorem nodup_indices (a : Arena) : a.indices.Nodup := by
  unfold indices List.Nodup
  rw [List.pairwise_map]
  exact List.nodup_range.imp fun h e => h (Index.slot.inj e)

theorem get_of_get? {c : Container} (h : a.get? i = some c) : a.get i = .ok c := by
  rw [get, h]

theorem get_of_notMem (hi : i ∉ a.indices) : a.get i = .error (.noContainer i a.size) := by
  cases hc : a.get? i with
  | some c => exact absurd (mem_indices_of_get? hc) hi
  | none => rw [get, hc]

theorem ne_missing_of_mem (h : i ∈ a.indices) : i ≠ .missing := by
  rintro rfl
  simp [indices, Index.missing] at h

theorem not_outside_of_mem (h : i ∈ a.indices) : i.outside a.size = false := by
  cases i with
  | slot n => simpa [Index.outside] using slot_mem_indices.1 h
  | stray q => simp [indices] at h

@[simp] theorem get?_size : a.get? (.slot a.size) = none := by
  simp [get?, Index.lookup, size]

theorem get?_update (a : Arena) (i j : Index) (f : Container → Container) :
    (a.update i f).get? j = if j = i then (a.get? j).map f else a.get? j := by
  cases i with
  | stray q => cases j <;> simp [update, get?, Index.lookup]
  | slot n =>
    cases j with
    | stray q => simp [get?, Index.lookup]
    | slot k =>
      by_cases h : k = n
      · simp [update, get?, Index.lookup, Array.getElem?_modify, h]
      · simp [update, get?, Index.lookup, Array.getElem?_modify, h, Ne.symm h]

@[simp] theorem indices_update (a : Arena) (i : Index) (f : Container → Container) :
    (a.update i f).indices = a.indices := by simp [indices]

@[simp] theorem ids_update (a : Arena) (i : Index) (f : Container → Container) :
    (a.update i f).ids = a.ids := by
  cases i <;> rfl

@[simp] theorem find?_update (a : Arena) (i : Index) (f : Container → Container) (id : Text) :
    (a.update i f).find? id = a.find? id := by simp [find?]

theorem get?_append (a : Arena) (j : Index) :
    a.append.2.get? j = if j = .slot a.size then some {} else a.get? j := by
  cases j with
  | stray q => simp [get?, Index.lookup]
  | slot n => simp [append, get?, Index.lookup, size, Array.getElem?_push]

@[simp] theorem size_append (a : Arena) : a.append.2.size = a.size + 1 := by simp [append, size]

@[simp] theorem ids_append (a : Arena) : a.append.2.ids = a.ids := rfl

@[simp] theorem get?_assign (a : Arena) (id : Text) (i j : Index) :
    (a.assign id i).get? j = a.get? j := by
  unfold assign
  split <;> rfl

theorem ids_assign {id : Text} (h : a.find? id = none) (i : Index) :
    (a.assign id i).ids = a.ids ++ [(id, i)] := by
  simp [assign, h]

theorem claim_of_some {id : Text} (h : a.find? id = some i) : a.claim id = (i, a) := by
  simp [claim, h]

theorem claim_of_none {id : Text} (h : a.find? id = none) :
    a.claim id = (.slot a.size, a.append.2.assign id (.slot a.size)) := by
  have hnew : a.append.2.find? id = none := h
  simp [claim, assign, h, hnew]

theorem ids_claim_of_none {id : Text} (h : a.find? id = none) :
    (a.claim id).2.ids = a.ids ++ [(id, .slot a.size)] := by
  rw [claim_of_none h, ids_assign (by exact h), ids_append]

theorem find?_eq_none {id : Text} : a.find? id = none ↔ id ∉ a.ids.map Prod.fst := by
  rw [find?, List.lookup_eq_none_iff]
  constructor
  · intro h hid
    obtain ⟨p, hp, rfl⟩ := List.mem_map.1 hid
    simpa using h p hp
  · intro h p hp
    have hne : id ≠ p.1 := fun e => h (List.mem_map.2 ⟨p, hp, e.symm⟩)
    simpa using hne

theorem mem_ids_of_find? {id : Text} (h : a.find? id = some i) : (id, i) ∈ a.ids := by
  obtain ⟨before, after, e, _⟩ := List.lookup_eq_some_iff.1 h
  rw [e]
  simp

end MailThread.Arena
