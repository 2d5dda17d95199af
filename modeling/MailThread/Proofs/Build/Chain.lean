import MailThread.Proofs.Build.Rows
import MailThread.Proofs.Forest.Walks
import MailThread.Proofs.Listing.Width
import Mathlib

namespace MailThread

open Arena

/-- Messages each of which, but for the first, replies to the one before it. -/
structure Chain (es : Array Envelope) : Prop where
  named : ∀ {k : Nat} {e : Envelope}, es[k]? = some e → e.messageId ≠ .empty
  distinct : ∀ {k l : Nat} {d e : Envelope}, es[k]? = some d → es[l]? = some e →
    d.messageId = e.messageId → k = l
  first : ∀ {e : Envelope}, es[0]? = some e → e.parentId? = none
  next : ∀ {k : Nat} {d e : Envelope}, es[k]? = some d → es[k + 1]? = some e →
    e.parentId? = some d.messageId

theorem two_mul_sum_range (n : Nat) : 2 * (List.range n).sum = n * (n - 1) := by
  have hsum := List.sum_toFinset id (List.nodup_range (n := n))
  rw [List.toFinset_range, List.map_id] at hsum
  rw [← hsum, mul_comm]
  exact Finset.sum_range_id_mul_two n

theorem sum_le_of_nodup_subset {l₁ l₂ : List Nat} (h : l₁.Nodup) (hsub : l₁ ⊆ l₂) :
    l₁.sum ≤ l₂.sum := by
  obtain ⟨l, hperm, hl⟩ := List.subperm_of_subset h hsub
  rw [← hperm.sum_eq]
  exact hl.sum_le_sum fun _ _ => Nat.zero_le _

theorem Forest.Laid.two_mul_level_le {f : Forest} (hl : f.Laid) {o : ListingStyle} {i : Index}
    {row : MessageLine} (hi : f.messageLine? o i = some row) :
    2 * (f.arena.messagesAbove row.container).ncard ≤ row.text.length := by
  obtain ⟨rfl, _⟩ := Forest.shown_of_messageLine? hi
  rw [MessageLine.length_text, MessageLine.width, hl.indentation_of_messageLine? hi,
    Binary64.truncate_natCast, Int.toNat_natCast]
  exact Nat.le_add_right _ _

namespace Chain

variable {a : Arena} {es : Array Envelope} {f : Forest} {i : Index} {k : Nat} {e : Envelope}

theorem of_untied {ds : Array Envelope} (hc : Chain es)
    (h : ds.toList.map Envelope.untied = es.toList.map Envelope.untied) : Chain ds := by
  have hget {k : Nat} {d : Envelope} (hd : ds[k]? = some d) :
      ∃ e, es[k]? = some e ∧ d.untied = e.untied := by
    have hk := congrArg (fun l => l[k]?) h
    simp only [List.getElem?_map, Array.getElem?_toList, hd, Option.map_some] at hk
    obtain ⟨e, he, heq⟩ := Option.map_eq_some_iff.1 hk.symm
    exact ⟨e, he, heq.symm⟩
  refine ⟨fun hd => ?_, fun hd hd' hid => ?_, fun hd => ?_, fun hd hd' => ?_⟩
  · obtain ⟨e, he, heq⟩ := hget hd
    rw [Envelope.messageId_eq heq]
    exact hc.named he
  · obtain ⟨e, he, heq⟩ := hget hd
    obtain ⟨e', he', heq'⟩ := hget hd'
    rw [Envelope.messageId_eq heq, Envelope.messageId_eq heq'] at hid
    exact hc.distinct he he' hid
  · obtain ⟨e, he, heq⟩ := hget hd
    rw [Envelope.parentId?_eq heq]
    exact hc.first he
  · obtain ⟨e, he, heq⟩ := hget hd
    obtain ⟨e', he', heq'⟩ := hget hd'
    rw [Envelope.parentId?_eq heq', Envelope.messageId_eq heq]
    exact hc.next he he'

theorem exists_holder (hc : Chain es) (hs : a.Sound es) (hf : a.Filed es) (hk : es[k]? = some e) :
    ∃ i, a.Holds es i k e ∧ a.find? e.messageId = some i := by
  cases ht : e.thread with
  | none =>
    obtain ⟨_, l, d, hl, hd, hid⟩ := hf.unbound hk ht
    have heq := hc.distinct hd hk hid
    omega
  | some i =>
    have hi : a.Holds es i k e := ⟨(hs.pointed hk).1 ht, hk⟩
    exact ⟨i, hi, (hs.owned hi _).2 ⟨rfl, hc.named hk⟩⟩

/-- Above a message of a chain stand those before it. -/
theorem holds_at_level (hc : Chain es) (hs : a.Sound es) (hf : a.Filed es) (hi : a.Holds es i k e) :
    (a.messagesAbove i).ncard = k ∧
      ∀ j l, a.Below i j → a.message? j = some (.slot l) → l ≤ k := by
  induction k generalizing i e with
  | zero =>
    have htop := hf.free hi (hc.first hi.2)
    refine ⟨by rw [messagesAbove_of_parentless htop, Set.ncard_empty], fun j l hj hl => ?_⟩
    rw [← hj.eq_of_parentless htop, hi.1] at hl
    cases hl
    exact Nat.le_refl 0
  | succ k ih =>
    obtain ⟨d, hd⟩ : ∃ d, es[k]? = some d :=
      ⟨_, Array.getElem?_eq_getElem (Nat.lt_of_succ_lt (hs.lt_size hi.1))⟩
    obtain ⟨p, hp, hfind⟩ := hc.exists_holder hs hf hd
    obtain ⟨hlevel, habove⟩ := ih hp
    obtain ⟨q, hq, hplace⟩ := hf.under hi (hc.next hd hi.2)
    cases hfind.symm.trans hq
    have hparent : a.parent? i = some p := by
      refine hplace.resolve_right fun ⟨_, hbelow⟩ => ?_
      -- the message before it would stand below it
      have hle := habove i (k + 1) hbelow hi.1
      omega
    constructor
    · rw [hs.rooted.ncard_messagesAbove hparent, hlevel, ownLevel, hp.1]
      rfl
    · intro j l hj hl
      obtain rfl | ⟨q, hq, hqj⟩ := hj.cases_head
      · rw [hi.1] at hl
        cases hl
        exact Nat.le_refl _
      · cases hparent.symm.trans hq
        exact (habove j l hqj hl).trans (Nat.le_succ k)

theorem range_subset_levels (hc : Chain f.envelopes) (h : f.Sound) (hr : f.Harvested) (hl : f.Laid)
    (hf : f.arena.Filed f.envelopes) :
    List.range f.envelopes.size ⊆ f.order.map fun i => (f.arena.messagesAbove i).ncard := by
  intro k hk
  obtain ⟨i, hi, _⟩ := hc.exists_holder h.arena hf (Array.getElem?_eq_getElem (List.mem_range.1 hk))
  rw [← (hc.holds_at_level h.arena hf hi).1]
  exact List.mem_map_of_mem ((h.mem_order hr hl).2 ⟨_, hi.1⟩)

/-- The listing of a chain grows with the square of its length, for each row stands in by one level
more than the row before it. -/
theorem le_length_page (hc : Chain f.envelopes) (h : f.Sound) (hr : f.Harvested) (hl : f.Laid)
    (hf : f.arena.Filed f.envelopes) {o : ListingStyle} (hsort : o.sort = none)
    (hsub : o.subsort = none) (hterm : o.filter = .empty) :
    ∃ rows, f.messageLines o = .ok rows ∧ f.envelopes.size * (f.envelopes.size - 1) ≤
      (Listing.page (rows.map MessageLine.text)).length := by
  obtain ⟨rows, hrows, heq⟩ := h.messageLines_plain hsort hsub hterm
  refine ⟨rows, hrows, ?_⟩
  have horder : f.order = rows.map (·.container) := by
    rw [heq, f.map_container_lines, ← hl.order_eq_trees]
  have hlevels := hc.range_subset_levels h hr hl hf
  rw [horder, List.map_map] at hlevels
  have hsum := sum_le_of_nodup_subset List.nodup_range hlevels
  have hwidths : (rows.map fun row => 2 * (f.arena.messagesAbove row.container).ncard).sum ≤
      (rows.map fun row => row.text.length).sum := by
    apply List.sum_le_sum
    intro row hrow
    rw [heq] at hrow
    obtain ⟨i, _, hi⟩ := List.mem_filterMap.1 hrow
    exact hl.two_mul_level_le hi
  rw [List.sum_map_mul_left] at hwidths
  rw [← two_mul_sum_range, Listing.length_page, Listing.pageWidth_eq, List.map_map]
  simp only [Function.comp_def] at hsum ⊢
  omega

end Chain

end MailThread
