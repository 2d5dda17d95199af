import MailThread.Intake
import MailThread.Proofs.Outcome
import Mathlib.Data.List.Forall2

namespace MailThread

/-- The issue as seen from a value that holds its subject under `key`. An issue with no field is
about the value as a whole. -/
def Issue.within (key : String) (i : Issue) : Issue :=
  { i with field := if i.field = "" then key else key ++ "." ++ i.field }

namespace Intake

variable {α β : Type} {r : Checked α} {rs : List (Checked α)} {a : α} {as : List α} {j : Json}
  {js : List Json} {check : Json → Checked α} {key : String} {c : Complaint}

@[simp] theorem complaints_ok (a : α) : complaints (.ok a) = [] := rfl

@[simp] theorem complaints_error (cs : List Complaint) :
    complaints (.error cs : Checked α) = cs := rfl

@[simp] theorem under_eq_ok_iff : under key r = .ok a ↔ r = .ok a := by
  cases r <;> simp [under]

theorem complaints_under (key : String) (r : Checked α) :
    complaints (under key r) = (complaints r).map (·.under key) := by
  cases r <;> rfl

theorem collect_eq_ok_iff : collect rs = .ok as ↔ rs = as.map .ok := by
  induction rs generalizing as with
  | nil => cases as <;> simp [collect]
  | cons r rs ih =>
    have hcons : collect (r :: rs) = .ok as ↔
        ∃ a bs, r = .ok a ∧ collect rs = .ok bs ∧ as = a :: bs := by
      cases r <;> cases h : collect rs <;> simp [collect, h, eq_comm]
    rw [hcons]
    constructor
    · rintro ⟨a, bs, rfl, hbs, rfl⟩
      rw [ih.1 hbs, List.map_cons]
    · intro h
      cases as with
      | nil => cases h
      | cons a as =>
        obtain ⟨rfl, hrs⟩ := List.cons.inj h
        exact ⟨a, as, rfl, ih.2 hrs, rfl⟩

theorem complaints_collect (rs : List (Checked α)) :
    complaints (collect rs) = rs.flatMap complaints := by
  induction rs with
  | nil => rfl
  | cons r rs ih =>
    rw [List.flatMap_cons, ← ih]
    cases r <;> cases h : collect rs <;> simp [collect, h]

theorem items_eq_ok_iff :
    items check js = .ok as ↔ List.Forall₂ (fun j a => check j = .ok a) js as := by
  -- The positions shift along the list, so the induction is for any checks that accept the same.
  have hshift : ∀ f : Nat → Json → Checked α, (∀ i j a, f i j = .ok a ↔ check j = .ok a) →
      (js.mapIdx f = as.map .ok ↔ List.Forall₂ (fun j a => check j = .ok a) js as) := by
    induction js generalizing as with
    | nil => simp [eq_comm]
    | cons j js ih =>
      intro f hf
      rw [List.mapIdx_cons]
      cases as with
      | nil => simp
      | cons a as =>
        rw [List.map_cons, List.cons.injEq, List.forall₂_cons, hf,
          ih (fun i => f (i + 1)) fun i => hf (i + 1)]
  rw [items, collect_eq_ok_iff]
  exact hshift _ fun i j a => under_eq_ok_iff

theorem exists_of_items_eq_ok (h : items check js = .ok as) :
    (∀ j ∈ js, ∃ a, check j = .ok a) ∧ ∀ a ∈ as, ∃ j, check j = .ok a := by
  have hall := items_eq_ok_iff.1 h
  clear h
  induction hall with
  | nil => simp
  | cons hja _ ih =>
    exact ⟨List.forall_mem_cons.2 ⟨⟨_, hja⟩, ih.1⟩, List.forall_mem_cons.2 ⟨⟨_, hja⟩, ih.2⟩⟩

theorem map_mapIdx {γ δ : Type} (f : Nat → γ → α) (g : α → δ) (l : List γ) :
    (l.mapIdx f).map g = l.mapIdx fun i x => g (f i x) := by
  simp [List.mapIdx_eq_zipIdx_map]

theorem complaints_items (check : Json → Checked α) (js : List Json) :
    complaints (items check js) =
      (js.mapIdx fun i j => (complaints (check j)).map (·.under (toString i))).flatten := by
  rw [items, complaints_collect, List.flatMap_def, map_mapIdx]
  simp only [complaints_under]

def Told (r : Checked α) : Prop := complaints r = [] → ∃ a, r = .ok a

theorem told_ok (a : α) : Told (.ok a) := fun _ => ⟨a, rfl⟩

theorem told_error {cs : List Complaint} (h : cs ≠ []) : Told (.error cs : Checked α) :=
  fun hnone => absurd hnone h

theorem told_refuse (f : Refusal) : Told (refuse f : Checked α) := told_error (by simp)

theorem Told.under (h : Told r) (key : String) : Told (under key r) := by
  intro hnone
  rw [complaints_under, List.map_eq_nil_iff] at hnone
  obtain ⟨a, ha⟩ := h hnone
  exact ⟨a, under_eq_ok_iff.2 ha⟩

theorem Told.map (h : Told r) (f : α → β) : Told (r.map f) := by
  cases r with
  | ok a => exact told_ok (f a)
  | error cs => exact told_error fun hnone => by simpa using h hnone

theorem told_collect (h : ∀ r ∈ rs, Told r) : Told (collect rs) := by
  induction rs with
  | nil => exact told_ok []
  | cons r rs ih =>
    intro hnone
    rw [complaints_collect, List.flatMap_cons, List.append_eq_nil_iff,
      ← complaints_collect] at hnone
    obtain ⟨hr, hrs⟩ := List.forall_mem_cons.1 h
    obtain ⟨a, rfl⟩ := hr hnone.1
    obtain ⟨as, has⟩ := ih hrs hnone.2
    refine ⟨a :: as, collect_eq_ok_iff.2 ?_⟩
    rw [collect_eq_ok_iff.1 has, List.map_cons]

theorem told_items (h : ∀ j, Told (check j)) (js : List Json) : Told (items check js) := by
  apply told_collect
  intro r hr
  obtain ⟨i, hi, rfl⟩ := List.mem_mapIdx.1 hr
  exact (h _).under _

/-- The path of a complaint that is not about the whole value begins with a key. -/
def Complaint.Placed (c : Complaint) : Prop :=
  ∀ key rest, c.path = key :: rest → key ≠ ""

theorem placed_of_mem_under (hkey : key ≠ "") (h : c ∈ complaints (under key r)) : c.Placed := by
  rw [complaints_under, List.mem_map] at h
  obtain ⟨c, _, rfl⟩ := h
  rintro k rest hpath
  obtain ⟨rfl, _⟩ := List.cons.inj hpath
  exact hkey

theorem Complaint.Placed.issue_under (h : c.Placed) (key : String) :
    (c.under key).issue = c.issue.within key := by
  obtain ⟨path, refusal⟩ := c
  cases path with
  | nil => rfl
  | cons k rest =>
    have hfield : (issue ⟨k :: rest, refusal⟩).field ≠ "" := by
      have hk : k ≠ "" := h k rest rfl
      cases rest with
      | nil => simpa [issue] using hk
      | cons l rest => simp [issue, String.intercalate_cons_cons, hk]
    rw [Issue.within, if_neg hfield]
    simp only [under, issue, String.intercalate_cons_cons]

end Intake

end MailThread
