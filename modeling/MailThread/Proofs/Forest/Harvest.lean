import MailThread.Proofs.Forest.Listing

namespace MailThread

open Arena

namespace Arena

variable {a : Arena} {i r : Index} {rs : List Index}

/-- What is harvested in an arena. -/
structure Harvest (a : Arena) (rs : List Index) : Prop where
  /-- Each container without a parent has an entry. The most recent entries come first, and of equal
  dates those of the containers that come first. -/
  entries : ∃ ts, StableSort (fun t t' => a.dateOf (a.standIn t') ≤ a.dateOf (a.standIn t)) a.tops ts ∧
    rs = ts.map a.standIn
  nodup : rs.Nodup
  /-- No entry lies in the tree of another one. -/
  apart : ∀ r ∈ rs, ∀ r' ∈ rs, a.Below r r' → r = r'
  /-- Each container lies in the tree of one entry, but the placeholders that are replaced. -/
  covered : ∀ i ∈ a.indices, (∃! r, r ∈ rs ∧ a.Below i r) ↔ ¬ a.Replaced i

theorem Harvest.mem_iff (h : a.Harvest rs) : r ∈ rs ↔ ∃ t ∈ a.tops, a.standIn t = r := by
  obtain ⟨ts, hts, rfl⟩ := h.entries
  simp only [List.mem_map, hts.perm.mem_iff]

theorem Harvest.pairwise (h : a.Harvest rs) :
    rs.Pairwise fun r r' => a.dateOf r' ≤ a.dateOf r := by
  obtain ⟨ts, hts, rfl⟩ := h.entries
  rw [List.pairwise_map]
  exact hts.sorted.imp of_decide_eq_true

namespace Linked

variable (h : a.Linked)
include h

theorem existsUnique_standIn (hi : i ∈ a.indices) :
    (∃! r, (∃ t ∈ a.tops, a.standIn t = r) ∧ a.Below i r) ↔ ¬ a.Replaced i := by
  constructor
  · rintro ⟨_, ⟨⟨t, _, rfl⟩, hit⟩, _⟩ hreplaced
    exact h.not_below_standIn hreplaced t hit
  · intro hreplaced
    obtain ⟨t, ht, hit⟩ := h.rooted.exists_mem_tops hi
    have hbelow := h.below_standIn ht hit hreplaced
    refine ⟨_, ⟨⟨t, ht, rfl⟩, hbelow⟩, ?_⟩
    rintro _ ⟨⟨t', ht', rfl⟩, hbelow'⟩
    rw [h.top_eq_of_below ht ht' hbelow hbelow']

theorem harvest : ∃ rs, a.roots = .ok rs ∧ a.Harvest rs := by
  have hsort := stableSort_descending (fun t => a.dateOf (a.standIn t)) a.tops
  have hmap : (a.tops.mergeSort fun t t' =>
        a.dateOf (a.standIn t') ≤ a.dateOf (a.standIn t)).map a.standIn =
      (a.tops.map a.standIn).mergeSort fun r r' => a.dateOf r' ≤ a.dateOf r :=
    List.map_mergeSort fun _ _ _ _ => rfl
  have hroots := h.roots_eq
  rw [← hmap] at hroots
  generalize a.tops.mergeSort _ = ts at hsort hroots
  have hmem : ∀ r, r ∈ ts.map a.standIn ↔ ∃ t ∈ a.tops, a.standIn t = r := fun r => by
    simp only [List.mem_map, hsort.perm.mem_iff]
  refine ⟨_, hroots, ⟨ts, hsort, rfl⟩, ?_, fun r hr r' hr' hbelow => ?_, fun i hi => ?_⟩
  · refine (hsort.perm.nodup_iff.2 a.nodup_tops).map_on fun t ht t' ht' => ?_
    exact h.standIn_injOn (hsort.perm.mem_iff.1 ht) (hsort.perm.mem_iff.1 ht')
  · obtain ⟨t, ht, rfl⟩ := (hmem r).1 hr
    obtain ⟨t', ht', rfl⟩ := (hmem r').1 hr'
    rw [h.top_eq_of_below ht ht' (.refl a _) hbelow]
  · simp only [hmem]
    exact h.existsUnique_standIn hi

end Linked

end Arena

namespace Forest

variable {f : Forest} {r : Index}

/-- A placeholder that is a root has several replies. -/
theorem Sound.two_le_children (h : f.Sound) (hf : f.arena.Harvest f.roots) (hr : r ∈ f.roots)
    (hm : f.arena.message? r = none) :
    ∃ kids, f.arena.children r = .ok kids ∧ 2 ≤ kids.length := by
  have hfree := h.arena.ready.topmost r hm
  have hri := h.roots r hr
  have hreplaced : ¬ f.arena.Replaced r := fun hreplaced => by
    obtain ⟨t, _, rfl⟩ := hf.mem_iff.1 hr
    exact h.arena.linked.not_below_standIn hreplaced t (.refl _ _)
  refine ⟨_, h.arena.linked.children_eq hri, ?_⟩
  match hk : f.arena.kids r with
  | [] => exact absurd hk (h.arena.awaited r hri hm)
  | [k] => exact absurd ⟨hfree, hm, k, hk⟩ hreplaced
  | _ :: _ :: _ => simp

theorem Sound.messages_ne_nil (h : f.Sound) (hr : r ∈ f.roots) :
    ∃ ms, f.messages r = .ok ms ∧ ms ≠ [] := by
  obtain ⟨ms, hms, _, hmem⟩ := h.messages_eq (h.roots r hr)
  obtain ⟨k, hk⟩ := h.members_nonempty (h.roots r hr)
  exact ⟨ms, hms, List.ne_nil_of_mem ((hmem (.slot k)).2 ⟨k, hk, rfl⟩)⟩

theorem Sound.conversations_latest (h : f.Sound) (hf : f.arena.Harvest f.roots)
    (o : ListingStyle) :
    f.conversations { o with sort := some ⟨.date, .descending⟩ } =
      f.conversations { o with sort := none } := by
  unfold conversations
  rw [h.filterMapM_conversation?, ok_bind, ok_bind]
  refine congrArg Except.ok (List.mergeSort_of_pairwise ?_)
  rw [List.pairwise_map]
  exact (hf.pairwise.filter _).imp fun hle => decide_eq_true hle

theorem Sound.conversationLines_latest (h : f.Sound) (hf : f.arena.Harvest f.roots)
    (o : ListingStyle) :
    f.conversationLines { o with sort := some ⟨.date, .descending⟩ } =
      f.conversationLines { o with sort := none } := by
  rw [conversationLines, h.conversations_latest hf]
  rfl

theorem Sound.messageLines_latest (h : f.Sound) (hf : f.arena.Harvest f.roots)
    (o : ListingStyle) :
    f.messageLines { o with sort := some ⟨.date, .descending⟩ } =
      f.messageLines { o with sort := none } := by
  have hrows : f.addRows { o with sort := some ⟨.date, .descending⟩ } =
      f.addRows { o with sort := none } := by
    funext rows stack
    rw [addRows_eq, addRows_eq]
    rfl
  rw [messageLines, h.conversations_latest hf, hrows]
  rfl

end Forest

end MailThread
