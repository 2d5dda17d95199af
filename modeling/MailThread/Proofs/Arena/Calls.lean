import MailThread.Proofs.Arena.Date
import MailThread.Proofs.Arena.Detach
import Mathlib

namespace MailThread.Arena

variable {a b : Arena} {i child p : Index}

/-- A call on an arena. -/
inductive Call where
  | claim (messageId : Text)
  | append
  | bind (i message : Index) (date : Rat)
  | raise (i : Index) (date : Rat)
  | link (child p : Index)
deriving DecidableEq, Repr

/-- The arena after a call, whether that fails or not. -/
def after (a : Arena) : Call → Arena
  | .claim id => (a.claim id).2
  | .append => a.append.2
  | .bind i m d =>
    match a.bind i m d with
    | .ok b => b
    | .error _ => a
  | .raise i d => (a.raise i d).1
  | .link child p => (a.link child p).1

/-- The arena after some calls, which start from none. -/
def afterAll (calls : List Call) : Arena := calls.foldl after {}

theorem sameLinks_redate (l : List Index) (a : Arena) (d : Rat) :
    a.SameLinks (l.foldl (fun a j => a.update j fun c => { c with date := later c.date d }) a) := by
  induction l generalizing a with
  | nil => exact .of_get?_eq fun _ => rfl
  | cons j l ih =>
    have hfirst : a.SameLinks (a.update j fun c => { c with date := later c.date d }) :=
      .update a j fun _ => rfl
    exact hfirst.trans (ih _)

theorem isBelow_self (hi : i ≠ .missing) : a.isBelow i i = .ok true := by
  rw [isBelow, search, if_neg hi, if_pos rfl]

theorem isBelow_of_notMem {node : Index} (hi : i ∉ a.indices) (hm : i ≠ .missing)
    (hne : i ≠ node) : a.isBelow node i = .error (.noContainer i a.size) := by
  rw [isBelow, search, if_neg hm, if_neg hne]
  split
  next => rfl
  next c hc => exact absurd (mem_indices_of_get? hc) hi

/-- `b` is the arena `a` in which `child` has become the last child of `p`. -/
structure Moved (a b : Arena) (child p : Index) : Prop where
  linked : b.Linked
  ids : b.ids = a.ids
  size : b.size = a.size
  message? : ∀ i, b.message? i = a.message? i
  dateOf : ∀ i, b.dateOf i = a.dateOf i
  parent? : ∀ i, b.parent? i = if i = child then some p else a.parent? i
  kids : ∀ i, b.kids i = if i = p then a.kids p ++ [child] else (a.kids i).erase child
  below : ∀ i, b.Below i child ↔ a.Below i child

/-- A container that is cut off and hung elsewhere has moved. -/
theorem Cut.moved {free : Arena} (hcut : a.Cut free child) (hc : child ∈ a.indices)
    (hp : p ∈ a.indices) (hpc : ¬ a.Below p child) (hnot : child ∉ a.kids p)
    (hb : free.Hung b child p (free.kids p).getLast?) : a.Moved b child p := by
  have hindices : free.indices = a.indices := by rw [indices, hcut.size, indices]
  have hfree : free.parent? child = none := by rw [hcut.parent?, if_pos rfl]
  have hpf : ¬ free.Below p child := fun h => hpc ((below_freed_iff hcut.parent?).1 h)
  have hcf : child ∈ free.indices := hindices ▸ hc
  have hl := LinkedAs.hung hcut.linked hb hcf hfree (hindices ▸ hp) hpf
  refine
    { linked := hl.linked
      ids := hb.ids.trans hcut.ids
      size := hb.size.trans hcut.size
      message? := fun i => (hb.message?_eq i).trans (hcut.message? i)
      dateOf := fun i => (hb.dateOf_eq i).trans (hcut.dateOf i)
      parent? := fun i => ?_
      kids := fun i => ?_
      below := fun i => ?_ }
  · rw [hb.parent?_eq hcf, hcut.parent?]
    split <;> rfl
  · rw [hl.kids_eq, Function.update_apply, hcut.kids, hcut.kids, List.erase_of_not_mem hnot]
  · rw [below_hang hfree (hb.parent?_eq hcf), below_freed_iff hcut.parent?]
    exact ⟨fun h => h.elim id And.left, .inl⟩

namespace Moved

variable (hb : a.Moved b child p) (h : a.Linked)
include hb

theorem children_eq (hi : i ∈ a.indices) :
    b.children i = .ok (if i = p then a.kids p ++ [child] else (a.kids i).erase child) := by
  rw [hb.linked.children_eq (by rw [indices, hb.size]; exact hi), hb.kids]

include h

theorem children_new (hp : p ∈ a.indices) :
    ∃ kids, a.children p = .ok kids ∧ b.children p = .ok (kids ++ [child]) := by
  refine ⟨a.kids p, h.children_eq hp, ?_⟩
  rw [hb.children_eq hp, if_pos rfl]

theorem children_old (q : Index) (hq : a.parent? child = some q) (hqp : q ≠ p) :
    ∃ kids, a.children q = .ok kids ∧ b.children q = .ok (kids.erase child) := by
  have hi := h.rooted.parent_mem hq
  refine ⟨a.kids q, h.children_eq hi, ?_⟩
  rw [hb.children_eq hi, if_neg hqp]

theorem children_other (i : Index) (hi : i ∈ a.indices) (hip : i ≠ p)
    (hq : a.parent? child ≠ some i) : b.children i = a.children i := by
  rw [hb.children_eq hi, if_neg hip, h.children_eq hi,
    List.erase_of_not_mem fun hmem => hq (h.mem_kids.1 hmem)]

end Moved

namespace Linked

variable (h : a.Linked)
include h

theorem mem_of_related (hne : child ≠ p) (hr : a.Below child p ∨ a.Below p child) :
    child ∈ a.indices ∧ p ∈ a.indices :=
  hr.elim (h.rooted.mem_of_branch hne) fun hr => (h.rooted.mem_of_branch hne.symm hr).symm

theorem link_of_below (hc : child ≠ .missing) (hr : a.Below child p ∨ a.Below p child) :
    a.link child p = (a, .ok false) := by
  have hrelated : a.related child p = .ok true := by
    by_cases hcp : child = p
    · rw [hcp, related, isBelow_self (hcp ▸ hc)]
      rfl
    · have hmem := h.mem_of_related hcp hr
      obtain ⟨found, hfound, hiff⟩ := h.related_eq_ok hmem.1 hmem.2
      rw [hfound, hiff.2 hr.symm]
  rw [Arena.link, hrelated]

/-- A link needs two containers. -/
theorem link_of_notMem (hc : child ≠ .missing) (hp : p ≠ .missing) (hne : child ≠ p)
    (hout : child ∉ a.indices ∨ p ∉ a.indices) :
    ∃ i, (i = child ∨ i = p) ∧ i ∉ a.indices ∧
      a.link child p = (a, .error (.noContainer i a.size)) := by
  by_cases hci : child ∈ a.indices
  · have hpi : p ∉ a.indices := hout.resolve_left (not_not_intro hci)
    obtain ⟨found, hfound, hiff⟩ := isBelow_eq_ok h.chained p hci
    have hnot : found = false := by
      rw [← Bool.not_eq_true, hiff, h.reach_iff_below]
      exact fun hb => hpi (h.rooted.mem_of_branch (Ne.symm hne) hb).1
    refine ⟨p, .inr rfl, hpi, ?_⟩
    rw [Arena.link, related, hfound, hnot, ok_bind, isBelow_of_notMem hpi hp (Ne.symm hne)]
    rfl
  · refine ⟨child, .inl rfl, hci, ?_⟩
    rw [Arena.link, related, isBelow_of_notMem hci hc hne]
    rfl

theorem link_of_apart (hc : child ∈ a.indices) (hp : p ∈ a.indices) (hcp : ¬ a.Below child p)
    (hpc : ¬ a.Below p child) : ∃ b, a.link child p = (b, .ok true) ∧ a.Moved b child p := by
  obtain ⟨found, hfound, hiff⟩ := h.related_eq_ok hc hp
  have hno : found = false := by
    rw [← Bool.not_eq_true, hiff]
    exact fun hr => hr.elim hpc hcp
  obtain ⟨free, hdetach, hcut⟩ := h.detach_eq hc
  have hpf : p ∈ free.indices := by
    rw [indices, hcut.size]
    exact hp
  obtain ⟨b, hattach, hb⟩ := hcut.linked.attach_eq child hpf
  refine ⟨b, ?_, hcut.moved hc hp hpc (fun hmem => hcp (.of_parent (h.mem_kids.1 hmem))) hb⟩
  rw [Arena.link, hfound, hno]
  simp only [hdetach, hattach]

/-- A link is refused, or fails, or moves the child. -/
theorem link_cases (hc : child ≠ .missing) (hp : p ≠ .missing) :
    ((child = p ∨ a.Below child p ∨ a.Below p child) ∧ a.link child p = (a, .ok false)) ∨
    ¬ (child = p ∨ a.Below child p ∨ a.Below p child) ∧
      (((child ∉ a.indices ∨ p ∉ a.indices) ∧
          ∃ i, (i = child ∨ i = p) ∧ i ∉ a.indices ∧
            a.link child p = (a, .error (.noContainer i a.size))) ∨
        (child ∈ a.indices ∧ p ∈ a.indices ∧
          ∃ b, a.link child p = (b, .ok true) ∧ a.Moved b child p)) := by
  by_cases hr : child = p ∨ a.Below child p ∨ a.Below p child
  · refine .inl ⟨hr, h.link_of_below hc ?_⟩
    exact hr.elim (fun e => .inl (e ▸ .refl a child)) id
  · have hapart := hr
    rw [not_or, not_or] at hapart
    refine .inr ⟨hr, ?_⟩
    by_cases hout : child ∉ a.indices ∨ p ∉ a.indices
    · exact .inl ⟨hout, h.link_of_notMem hc hp hapart.1 hout⟩
    · rw [not_or, not_not, not_not] at hout
      exact .inr ⟨hout.1, hout.2, h.link_of_apart hout.1 hout.2 hapart.2.1 hapart.2.2⟩

theorem link_eq_false_iff (hc : child ≠ .missing) (hp : p ≠ .missing) :
    a.link child p = (a, .ok false) ↔ child = p ∨ a.Below child p ∨ a.Below p child := by
  rcases h.link_cases hc hp with ⟨hr, hl⟩ | ⟨hr, ⟨_, i, _, _, hl⟩ | ⟨_, _, b, hl, _⟩⟩
  · exact iff_of_true hl hr
  · rw [hl]
    exact iff_of_false nofun hr
  · rw [hl]
    exact iff_of_false nofun hr

theorem link_eq_error_iff (hc : child ≠ .missing) (hp : p ≠ .missing) :
    (∃ i, (i = child ∨ i = p) ∧ i ∉ a.indices ∧
        a.link child p = (a, .error (.noContainer i a.size))) ↔
      child ≠ p ∧ (child ∉ a.indices ∨ p ∉ a.indices) := by
  rcases h.link_cases hc hp with ⟨hr, hl⟩ | ⟨hr, ⟨hout, hl⟩ | ⟨hci, hpi, b, hl, _⟩⟩
  · rw [hl]
    refine iff_of_false (fun ⟨_, _, _, hi⟩ => nomatch hi) fun ⟨hne, hout⟩ => ?_
    obtain ⟨hci, hpi⟩ := h.mem_of_related hne (hr.resolve_left hne)
    exact hout.elim (absurd hci) (absurd hpi)
  · exact iff_of_true hl ⟨fun e => hr (.inl e), hout⟩
  · rw [hl]
    exact iff_of_false (fun ⟨_, _, _, hi⟩ => nomatch hi) fun ⟨_, hout⟩ =>
      hout.elim (absurd hci) (absurd hpi)

theorem after_claim (id : Text) : (a.claim id).2.Linked := by
  cases hf : a.find? id with
  | some i =>
    rw [claim_of_some hf]
    exact h
  | none =>
    rw [claim_of_none hf]
    exact (sameLinks_assign _ id _).linked h.append

theorem after_bind (i m : Index) (d : Rat) : (a.after (.bind i m d)).Linked := by
  by_cases hi : i ∈ a.indices
  · obtain ⟨b, hb, hlinks, _⟩ := h.bind_eq hi m d
    simp only [after, hb]
    exact hlinks.linked h
  · simp only [after, Arena.bind, get_of_notMem hi]
    exact h

theorem after_link (child p : Index) : (a.link child p).1.Linked := by
  cases hr : a.related child p with
  | error f => simpa only [Arena.link, hr] using h
  | ok related =>
    cases related with
    | true => simpa only [Arena.link, hr] using h
    | false =>
      by_cases hc : child ∈ a.indices
      · obtain ⟨free, hdetach, hcut⟩ := h.detach_eq hc
        by_cases hp : p ∈ a.indices
        · obtain ⟨found, hfound, hiff⟩ := h.related_eq_ok hc hp
          have hnot : ¬ (a.Below p child ∨ a.Below child p) := fun hb => by
            rw [hfound, hiff.2 hb] at hr
            cases hr
          obtain ⟨b, hb, hmoved⟩ :=
            h.link_of_apart hc hp (fun hb => hnot (.inr hb)) fun hb => hnot (.inl hb)
          rw [hb]
          exact hmoved.linked
        · have hpf : p ∉ free.indices := by
            rw [indices, hcut.size]
            exact hp
          have hattach : free.attach child p = .error (.noContainer p free.size) := by
            rw [attach, get_of_notMem hpf]
            rfl
          simpa only [Arena.link, hr, hdetach, hattach] using hcut.linked
      · have hdetach : a.detach child = .error (.noContainer child a.size) := by
          rw [detach, get_of_notMem hc]
          rfl
        simpa only [Arena.link, hr, hdetach] using h

theorem after (call : Call) : (a.after call).Linked := by
  cases call with
  | claim id => exact h.after_claim id
  | append => exact h.append
  | bind i m d => exact h.after_bind i m d
  | raise i d => exact (sameLinks_redate _ a d).linked h
  | link child p => exact h.after_link child p

end Linked

theorem linked_afterAll (calls : List Call) : (afterAll calls).Linked := by
  have hrun : ∀ a : Arena, a.Linked → (calls.foldl Arena.after a).Linked := by
    induction calls with
    | nil => exact fun a h => h
    | cons call calls ih => exact fun a h => ih _ (h.after call)
  exact hrun {} linked_empty

/-- After any calls the pointers of an arena spell out one child list for each container, a
container stands in the list of its parent alone, and every way up ends. A link of two numbers then
is refused exactly inside of one branch, fails exactly where one of two different numbers names no
container, and otherwise takes the child with all below it to the end of the new list and changes
nothing else. -/
theorem link_afterAll (calls : List Call) (a : Arena) (ha : a = afterAll calls) :
    (∀ i c, a.get? i = some c →
      ∃ kids, a.Path (·.nextSibling) c.firstChild kids ∧ kids.Nodup ∧
        c.firstChild = kids.head? ∧ c.lastChild = kids.getLast? ∧
        ∀ j, j ∈ kids ↔ a.parent? j = some i) ∧
    (∀ i c, a.get? i = some c → c.parent = none → c.nextSibling = none) ∧
    (∀ i ∈ a.indices, ∃ up, a.Path (·.parent) (some i) up) ∧
    ∀ child p, child ≠ .missing → p ≠ .missing →
      (a.link child p = (a, .ok false) ↔ child = p ∨ a.Below child p ∨ a.Below p child) ∧
      ((∃ i, (i = child ∨ i = p) ∧ i ∉ a.indices ∧
          a.link child p = (a, .error (.noContainer i a.size))) ↔
        child ≠ p ∧ (child ∉ a.indices ∨ p ∉ a.indices)) ∧
      (child ∈ a.indices → p ∈ a.indices → ¬ a.Below child p → ¬ a.Below p child →
        ∃ b, a.link child p = (b, .ok true) ∧
          (∃ kids, a.children p = .ok kids ∧ b.children p = .ok (kids ++ [child])) ∧
          (∀ q, a.parent? child = some q →
            ∃ kids, a.children q = .ok kids ∧ b.children q = .ok (kids.erase child)) ∧
          (∀ i ∈ a.indices, i ≠ p → a.parent? child ≠ some i → b.children i = a.children i) ∧
          (∀ i, b.parent? i = if i = child then some p else a.parent? i) ∧
          (∀ i, b.Below i child ↔ a.Below i child) ∧
          (∀ i, b.message? i = a.message? i) ∧ (∀ i, b.dateOf i = a.dateOf i) ∧
          b.ids = a.ids ∧ b.size = a.size) := by
  have h : a.Linked := ha ▸ linked_afterAll calls
  refine ⟨fun i c hc => ?_, fun i c => LinkedAs.free h, h.rooted, fun child p hcm hpm => ?_⟩
  · have hpath := LinkedAs.chain h hc
    exact ⟨a.kids i, hpath, hpath.nodup, h.firstChild_eq hc, LinkedAs.last h hc,
      fun j => h.mem_kids⟩
  refine ⟨h.link_eq_false_iff hcm hpm, h.link_eq_error_iff hcm hpm, fun hc hp hcp hpc => ?_⟩
  obtain ⟨b, hlink, hb⟩ := h.link_of_apart hc hp hcp hpc
  have ne : ∀ {q}, a.parent? child = some q → q ≠ p := by
    rintro q hq rfl
    exact hcp (.of_parent hq)
  exact ⟨b, hlink, hb.children_new h hp, fun q hq => hb.children_old h q hq (ne hq),
    hb.children_other h, hb.parent?, hb.below, hb.message?, hb.dateOf, hb.ids, hb.size⟩

/-- Of two children of one container the first is moved under the second. -/
theorem link_afterAll_siblings :
    ∃ b, (afterAll [.append, .append, .append, .link (.slot 1) (.slot 0),
        .link (.slot 2) (.slot 0)]).link (.slot 1) (.slot 2) = (b, .ok true) ∧
      b.children (.slot 0) = .ok [.slot 2] ∧ b.children (.slot 2) = .ok [.slot 1] := by
  generalize ha : afterAll [.append, .append, .append, .link (.slot 1) (.slot 0),
    .link (.slot 2) (.slot 0)] = a
  obtain ⟨_, _, _, hlink⟩ := link_afterAll [.append, .append, .append, .link (.slot 1) (.slot 0),
    .link (.slot 2) (.slot 0)] a ha.symm
  obtain ⟨hrefused, _, hmoved⟩ := hlink (.slot 1) (.slot 2) (by decide) (by decide)
  have hsize : a.size = 3 := by
    rw [← ha]
    cbv
  have hvalue : (a.link (.slot 1) (.slot 2)).2 = .ok true := by
    rw [← ha]
    cbv
  have hparent : a.parent? (.slot 1) = some (.slot 0) := by
    rw [← ha]
    cbv
  have hzero : a.children (.slot 0) = .ok [.slot 1, .slot 2] := by
    rw [← ha]
    cbv
  have htwo : a.children (.slot 2) = .ok [] := by
    rw [← ha]
    cbv
  have hapart := mt hrefused.2 fun he => by
    rw [he] at hvalue
    cases hvalue
  obtain ⟨hcp, hpc⟩ := not_or.1 (not_or.1 hapart).2
  obtain ⟨b, hb, ⟨kids, hkids, hnew⟩, hold, _⟩ :=
    hmoved (slot_mem_indices.2 (by omega)) (slot_mem_indices.2 (by omega)) hcp hpc
  obtain ⟨kids', hkids', hrest⟩ := hold (.slot 0) hparent
  cases hzero.symm.trans hkids'
  cases htwo.symm.trans hkids
  exact ⟨b, hb, hrest, hnew⟩

end MailThread.Arena
