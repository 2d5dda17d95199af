import MailThread.Proofs.Arena.Date
import Mathlib.Combinatorics.Pigeonhole
import Mathlib.Data.Nat.Find

namespace MailThread.Arena

variable {a : Arena} {i j p : Index} {m n : Nat}

def Closed (a : Arena) : Prop := ∀ i p, a.parent? i = some p → p ∈ a.indices

/-- No parent lies below its own child. -/
def Acyclic (a : Arena) : Prop := ∀ i p, a.parent? i = some p → ¬ a.Below p i

/-- What stands a number of steps above a container. -/
def climb (a : Arena) : Nat → Index → Option Index
  | 0, i => some i
  | n + 1, i => (a.parent? i).bind (a.climb n)

theorem climb_add (m n : Nat) (i : Index) :
    a.climb (m + n) i = (a.climb m i).bind (a.climb n) := by
  induction m generalizing i with
  | zero => rw [Nat.zero_add]; rfl
  | succ m ih =>
    rw [Nat.succ_add, climb, climb, Option.bind_assoc]
    exact congrArg _ (funext ih)

theorem below_iff_climb : a.Below i j ↔ ∃ n, a.climb n i = some j := by
  constructor
  · intro h
    induction h using Relation.ReflTransGen.head_induction_on with
    | refl => exact ⟨0, rfl⟩
    | head hp _ ih =>
      obtain ⟨n, hn⟩ := ih
      exact ⟨n + 1, by rw [climb, hp, Option.bind_some, hn]⟩
  · rintro ⟨n, hn⟩
    induction n generalizing i with
    | zero => exact Option.some.inj hn ▸ .refl a i
    | succ n ih =>
      obtain ⟨p, hp, hn⟩ := Option.bind_eq_some_iff.1 hn
      exact .trans (.of_parent hp) (ih hn)

theorem exists_climb_le (h : a.climb n i = some j) (hm : m ≤ n) : ∃ k, a.climb m i = some k := by
  obtain ⟨d, rfl⟩ := Nat.exists_eq_add_of_le hm
  rw [climb_add] at h
  obtain ⟨k, hk, _⟩ := Option.bind_eq_some_iff.1 h
  exact ⟨k, hk⟩

theorem exists_climb_shorter {s t : Nat} (hn : a.climb n i = some j) (hst : s < t) (ht : t ≤ n)
    (hsame : a.climb s i = a.climb t i) : ∃ m < n, a.climb m i = some j := by
  refine ⟨s + (n - t), by omega, ?_⟩
  rw [climb_add, hsame, ← climb_add, Nat.add_sub_cancel' ht, hn]

namespace Closed

variable (h : a.Closed)
include h

theorem mem_of_below (hi : i ∈ a.indices) (hij : a.Below i j) : j ∈ a.indices := by
  rcases hij.cases_tail with rfl | ⟨k, _, hk⟩
  · exact hi
  · exact h k j hk

theorem exists_climb_eq (hi : i ∈ a.indices) (hn : a.climb n i = some j) (hsize : a.size ≤ n) :
    ∃ s t, s < t ∧ t ≤ n ∧ a.climb s i = a.climb t i := by
  have hmaps : ∀ k ∈ Finset.range (a.size + 1), a.climb k i ∈ (a.indices.map some).toFinset := by
    intro k hk
    have hlt := Finset.mem_range.1 hk
    obtain ⟨x, hx⟩ := exists_climb_le hn (by omega : k ≤ n)
    rw [hx, List.mem_toFinset]
    exact List.mem_map_of_mem (h.mem_of_below hi (below_iff_climb.2 ⟨k, hx⟩))
  have hcard : (a.indices.map some).toFinset.card < (Finset.range (a.size + 1)).card := by
    have hle := List.toFinset_card_le (a.indices.map some)
    rw [List.length_map, length_indices] at hle
    rw [Finset.card_range]
    omega
  obtain ⟨s, hs, t, ht, hne, hsame⟩ := Finset.exists_ne_map_eq_of_card_lt_of_maps_to hcard hmaps
  rw [Finset.mem_range] at hs ht
  obtain hst | hts := Nat.lt_or_gt_of_ne hne
  · exact ⟨s, t, hst, by omega, hsame⟩
  · exact ⟨t, s, hts, by omega, hsame.symm⟩

theorem exists_climb_lt (hi : i ∈ a.indices) (hn : a.climb n i = some j) :
    ∃ m < a.size, a.climb m i = some j := by
  induction n using Nat.strong_induction_on with
  | _ n ih =>
    by_cases hlt : n < a.size
    · exact ⟨n, hlt, hn⟩
    · obtain ⟨s, t, hst, ht, hsame⟩ := h.exists_climb_eq hi hn (by omega)
      obtain ⟨m, hmn, hm⟩ := exists_climb_shorter hn hst ht hsame
      exact ih m hmn hm

/-- The walk goes through the first `bound` containers of the way. -/
theorem ascent_eq (start : Option Index) (hstart : ∀ i, start = some i → i ∈ a.indices)
    (bound : Nat) :
    a.ascent bound start =
      { visited := (List.range bound).filterMap fun n => start.bind (a.climb n) } := by
  induction bound generalizing start with
  | zero => cases start <;> rfl
  | succ bound ih =>
    cases start with
    | none => simp [ascent]
    | some i =>
      obtain ⟨c, hc⟩ := mem_indices.1 (hstart i rfl)
      have hparent : a.parent? i = c.parent := parent?_of_get? hc
      have hrest := ih c.parent fun p hp => h i p (hparent.trans hp)
      simp only [ascent, hc, hrest, Trail.cons, List.range_succ_eq_map, List.filterMap_cons,
        List.filterMap_map, Option.bind_some, climb, Function.comp_def, hparent]

theorem wayUp_spec (hi : i ∈ a.indices) :
    (a.wayUp i).fault = none ∧ ∀ j, j ∈ (a.wayUp i).visited ↔ a.Below i j := by
  have hwalk := h.ascent_eq (some i) (fun j hj => Option.some.inj hj ▸ hi) (a.size + 1)
  rw [wayUp, hwalk]
  refine ⟨rfl, fun j => ?_⟩
  simp only [List.mem_filterMap, List.mem_range, Option.bind_some]
  constructor
  · rintro ⟨n, _, hn⟩
    exact below_iff_climb.2 ⟨n, hn⟩
  · intro hij
    obtain ⟨n, hn⟩ := below_iff_climb.1 hij
    obtain ⟨m, hm, hj⟩ := h.exists_climb_lt hi hn
    exact ⟨m, by omega, hj⟩

theorem exists_root (hi : i ∈ a.indices) : ∃ r, a.root i = .ok r ∧ a.Below i r := by
  obtain ⟨hfault, hvisited⟩ := h.wayUp_spec hi
  refine ⟨(a.wayUp i).visited.getLast?.getD i, ?_, ?_⟩
  · simp only [root, Trail.toExcept, hfault, ok_bind]
    rfl
  · cases hlast : (a.wayUp i).visited.getLast? with
    | none => exact .refl a i
    | some r => exact (hvisited r).1 (List.mem_of_getLast? hlast)

theorem exists_path (hi : i ∈ a.indices) (hn : a.climb n i = none) :
    ∃ l, a.Path (·.parent) (some i) l := by
  induction n generalizing i with
  | zero => cases hn
  | succ n ih =>
    obtain ⟨c, hc⟩ := mem_indices.1 hi
    have hparent : a.parent? i = c.parent := parent?_of_get? hc
    cases hp : c.parent with
    | none => exact ⟨[i], .step hc (hp ▸ .stop)⟩
    | some p =>
      rw [hp] at hparent
      rw [climb, hparent, Option.bind_some] at hn
      obtain ⟨l, hl⟩ := ih (h i p hparent) hn
      exact ⟨i :: l, .step hc (hp ▸ hl)⟩

theorem rooted (hac : a.Acyclic) : a.Rooted := by
  intro i hi
  apply h.exists_path hi (n := a.size)
  cases hn : a.climb a.size i with
  | none => rfl
  | some j =>
    obtain ⟨m, hm, hj⟩ := h.exists_climb_lt hi hn
    obtain ⟨d, hd⟩ := Nat.exists_eq_add_of_lt hm
    rw [hd, Nat.add_assoc, climb_add, hj, Option.bind_some, climb] at hn
    obtain ⟨p, hp, hback⟩ := Option.bind_eq_some_iff.1 hn
    exact absurd (below_iff_climb.2 ⟨d, hback⟩) (hac j p hp)

/-- Raises the dates of a container and of all its ancestors, in a circle too, and nothing else. -/
theorem raise_eq (hi : i ∈ a.indices) (d : Rat) :
    ∃ b, a.raise i d = (b, none) ∧ b.ids = a.ids ∧ b.size = a.size ∧
      ∀ j, (a.Below i j → b.get? j = (a.get? j).map fun c => { c with date := max c.date d }) ∧
        (¬ a.Below i j → b.get? j = a.get? j) := by
  obtain ⟨hfault, hvisited⟩ := h.wayUp_spec hi
  have hsub : (a.wayUp i).visited ⊆ a.indices := fun j hj =>
    h.mem_of_below hi ((hvisited j).1 hj)
  obtain ⟨_, hids, hsize, _⟩ := foldl_raise _ hsub d
  refine ⟨_, by rw [raise, hfault], hids, hsize, fun j => ⟨fun hij => ?_, fun hij => ?_⟩⟩
  · simp only [get?_foldl_raise, (hvisited j).2 hij, if_true]
  · simp only [get?_foldl_raise, mt (hvisited j).1 hij, if_false, Option.map_id']

end Closed

theorem rooted_iff : a.Rooted ↔ a.Closed ∧ a.Acyclic :=
  ⟨fun h => ⟨fun _ _ => h.parent_mem, fun _ _ => h.not_below_of_parent⟩, fun h => h.1.rooted h.2⟩

/-- The walks up from a container come to their end in every arena whose parents are containers. The
dates of the container and of all its ancestors are raised, newer ones in between or not, and nothing
else changes. Without a circle the walk for the root ends at the ancestor that has no parent, which is
the same one for exactly the containers of one tree. -/
theorem walks_up_complete (h : a.Closed) (hi : i ∈ a.indices) (d : Rat) :
    (∃ r, a.root i = .ok r ∧ a.Below i r) ∧
    (∃ b, a.raise i d = (b, none) ∧ b.ids = a.ids ∧ b.size = a.size ∧
      ∀ j, (a.Below i j → b.get? j = (a.get? j).map fun c => { c with date := max c.date d }) ∧
        (¬ a.Below i j → b.get? j = a.get? j)) ∧
    (a.Acyclic →
      (∀ r, a.root i = .ok r ↔ a.Below i r ∧ a.parent? r = none) ∧
      ∀ j ∈ a.indices, a.root i = a.root j ↔ a.Together i j) := by
  refine ⟨h.exists_root hi, h.raise_eq hi d, fun hac => ?_⟩
  have hrooted := h.rooted hac
  refine ⟨fun r => hrooted.root_eq_ok hi, fun j hj => ?_⟩
  obtain ⟨r, s, hr, hs, hiff⟩ := hrooted.root_eq_iff hi hj
  rw [hr, hs, Except.ok.injEq, hiff]

def chain : Arena where
  containers := #[{ date := 100 }, { parent := some (.slot 0), date := 300 },
    { parent := some (.slot 1), date := 10 }]

theorem walks_up_complete_chain :
    chain.Closed ∧ chain.Acyclic ∧ chain.root (.slot 2) = .ok (.slot 0) ∧
      ∃ b, chain.raise (.slot 2) 200 = (b, none) ∧ b.dateOf (.slot 0) = 200 ∧
        b.dateOf (.slot 1) = 300 ∧ b.dateOf (.slot 2) = 200 := by
  have hway : chain.Path (·.parent) (some (.slot 2)) [.slot 2, .slot 1, .slot 0] :=
    .step rfl (.step rfl (.step rfl .stop))
  have hrooted : chain.Rooted := by
    intro i hi
    have hi' : i ∈ [Index.slot 2, .slot 1, .slot 0] := List.mem_reverse.1 hi
    obtain ⟨l, hl, _⟩ := hway.of_mem hi'
    exact ⟨_, hl⟩
  obtain ⟨hclosed, hacyclic⟩ := rooted_iff.1 hrooted
  have hmem : Index.slot 2 ∈ chain.indices := slot_mem_indices.2 (by decide)
  obtain ⟨_, ⟨b, hraise, _, _, hdates⟩, hroots⟩ := walks_up_complete hclosed hmem 200
  have hroot := ((hroots hacyclic).1 (.slot 0)).2 ⟨hway.mem_iff_below.1 (by decide), rfl⟩
  have hdate : ∀ j ∈ [Index.slot 2, .slot 1, .slot 0],
      b.dateOf j = ((chain.get? j).map fun c => max c.date 200).getD 0 := by
    intro j hj
    rw [dateOf_eq, (hdates j).1 (hway.mem_iff_below.1 hj), Option.map_map]
    rfl
  refine ⟨hclosed, hacyclic, hroot, b, hraise, ?_, ?_, ?_⟩
  · rw [hdate _ (by decide)]
    rfl
  · rw [hdate _ (by decide)]
    rfl
  · rw [hdate _ (by decide)]
    rfl

end MailThread.Arena
