import MailThread.Proofs.Arena.Seat

namespace MailThread.Arena

variable {a b : Arena} {i j p : Index} {id : Text}

/-- In `b` the container `i` of `a`, which had no parent, has the parent `above`, if there is one,
and no container above it is older than it. -/
structure Follows (a b : Arena) (i : Index) (above : Option Index) : Prop where
  linked : b.Linked
  ids : b.ids = a.ids
  mem : ∀ j, j ∈ b.indices ↔ j ∈ a.indices
  message? : ∀ j, b.message? j = a.message? j
  parent? : ∀ j, b.parent? j = if j = i then above else a.parent? j
  kids : ∀ j, b.kids j = if above = some j then a.kids j ++ [i] else a.kids j
  raised : ∀ p j, above = some p → a.Below p j → b.dateOf j = max (a.dateOf j) (a.dateOf i)
  kept : ∀ j, (∀ p, above = some p → ¬ a.Below p j) → b.dateOf j = a.dateOf j

theorem Linked.raise_self (h : a.Linked) (hi : i ∈ a.indices) (hfree : a.parent? i = none) :
    ∃ b, a.raise i (a.dateOf i) = (b, none) ∧ a.Follows b i none := by
  obtain ⟨b, hb, hlinks, hids, hsize, hmessage, hdate⟩ := h.rooted.raise_eq hi (a.dateOf i)
  refine ⟨b, hb, hlinks.linked h, hids, fun j => hlinks.mem_indices, hmessage, fun j => ?_,
    fun j => ?_, (fun _ _ hp => by cases hp), fun j _ => ?_⟩
  · rw [hlinks.parent?_eq]
    split
    next hj => rw [hj, hfree]
    next => rfl
  · rw [hlinks.kids_eq h, if_neg (by simp)]
  · by_cases hj : a.Below i j
    · rw [(hdate j).1 hj, hj.eq_of_parentless hfree, max_self]
    · exact (hdate j).2 hj

/-- A link is refused only where `p` lies in the tree of `i`; one that is made raises the dates
above it. -/
theorem Linked.link_raise (h : a.Linked) (hi : i ∈ a.indices) (hp : p ∈ a.indices)
    (hfree : a.parent? i = none) :
    (a.Below p i ∧ a.link i p = (a, .ok false)) ∨
      (¬ a.Below p i ∧ ∃ b c, a.link i p = (b, .ok true) ∧
        b.raise p (a.dateOf i) = (c, none) ∧ a.Follows c i (some p)) := by
  rcases h.link_eq hi hp hfree with hl | ⟨hpi, b, hlink, hb⟩
  · exact .inl hl
  · have hl : b.LinkedAs (Function.update a.kids p (a.kids p ++ [i])) :=
      LinkedAs.hung h hb hi hfree hp hpi
    -- the new link changes nothing above `p`, where the dates are raised
    have hbelow : ∀ j, b.Below p j ↔ a.Below p j := fun j => by
      rw [below_hang hfree (hb.parent?_eq hi)]
      exact ⟨fun hj => hj.elim id fun hj => hj.2, .inl⟩
    obtain ⟨c, hc, hlinks, hids, hsize, hmessage, hdate⟩ :=
      hl.rooted.raise_eq (hb.mem_indices.2 hp) (a.dateOf i)
    refine .inr ⟨hpi, b, c, hlink, hc, hlinks.linked hl.linked, hids.trans hb.ids,
      fun j => hlinks.mem_indices.trans hb.mem_indices,
      fun j => (hmessage j).trans (hb.message?_eq j), fun j => ?_, fun j => ?_, ?_, fun j hj => ?_⟩
    · rw [hlinks.parent?_eq, hb.parent?_eq hi]
    · rw [hlinks.kids_eq hl.linked, hl.kids_eq, Function.update_apply]
      by_cases hj : j = p
      · simp [hj]
      · rw [if_neg hj, if_neg fun e => hj (Option.some.inj e).symm]
    · rintro q j ⟨⟩ hj
      rw [(hdate j).1 ((hbelow j).2 hj), hb.dateOf_eq]
    · rw [(hdate j).2 fun hj' => hj p rfl ((hbelow j).1 hj'), hb.dateOf_eq]

/-- In `b` the message `m` with the date `d` stands in the container `i` of its id, which was new or
waited for it. -/
structure Fills (a b : Arena) (id : Text) (m : Index) (d : Rat) (i : Index) : Prop
    extends Assigns a b id i where
  linked : b.Linked
  named : b.Named
  mem : ∀ j, j ∈ b.indices ↔ j ∈ a.indices ∨ j = i
  parent? : ∀ j, b.parent? j = a.parent? j
  kids : ∀ j, b.kids j = a.kids j
  message? : ∀ j, b.message? j = if j = i then some m else a.message? j
  own : b.dateOf i = if a.kids i = [] then d else max (a.dateOf i) d
  other : ∀ j ∈ a.indices, j ≠ i → b.dateOf j = a.dateOf j

theorem seat_bind (h : a.Linked) (hn : a.Named) (id : Text) (m : Index) (d : Rat) :
    ∃ b, (a.seat id).2.bind (a.seat id).1 m d = .ok b ∧ a.Fills b id m d (a.seat id).1 := by
  have hs := seat_seats h hn id
  generalize (a.seat id).1 = i at hs ⊢
  generalize (a.seat id).2 = a' at hs ⊢
  have hi : i ∈ a'.indices := (hs.mem i).2 (.inr rfl)
  obtain ⟨b, hb, hlinks, hids, hsize, hmessage, hdate⟩ := hs.linked.bind_eq hi m d
  refine ⟨b, hb, ⟨hs.known, hs.new, fun x => (find?_congr hids x).trans (hs.find? x)⟩,
    hlinks.linked hs.linked, hs.named.congr hids fun j => hlinks.mem_indices.2,
    fun j => hlinks.mem_indices.trans (hs.mem j),
    fun j => (hlinks.parent?_eq j).trans (hs.trees.parent? j),
    fun j => (congrFun (hlinks.kids_eq hs.linked) j).trans (hs.trees.kids j), fun j => ?_, ?_,
    fun j hj hne => ?_⟩
  · rw [hmessage, hs.trees.message?]
  · rw [hdate, if_pos rfl, hs.trees.kids]
    by_cases hik : a.kids i = []
    · simp only [hik, if_true]
    · rw [if_neg hik, if_neg hik]
      -- a new container has no children, so that its date does not count
      by_cases hia : i ∈ a.indices
      · rw [hs.date i hia]
      · exact absurd (h.kids_of_notMem hia) hik
  · rw [hdate, if_neg hne, hs.date j hj]

/-- In `b` the message `m` with the date `d` has come into the container `i`, which was new or
waited for it, and `i` has the parent `above`: the container of `parentId`, unless that lies in the
tree of `i`. -/
structure Admits (a b : Arena) (id : Text) (m : Index) (d : Rat) (parentId : Option Text)
    (i : Index) (above : Option Index) : Prop where
  linked : b.Linked
  named : b.Named
  known : i ∈ a.indices → a.find? id = some i
  new : i ∉ a.indices → a.find? id = none
  keeps : ∀ {x p}, a.find? x = some p → b.find? x = some p
  own_id : id ≠ .empty → b.find? id = some i
  find?_cases : ∀ {x p}, b.find? x = some p → a.find? x = some p ∨
    (x = id ∧ id ≠ .empty ∧ p = i) ∨ (parentId = some x ∧ above = some p ∧ p ∉ a.indices)
  target : ∀ {x}, parentId = some x → ∃ p, b.find? x = some p ∧
    ((a.Below p i ∧ above = none) ∨ (¬ a.Below p i ∧ above = some p))
  free : parentId = none → above = none
  mem : ∀ j, j ∈ b.indices ↔ j ∈ a.indices ∨ j = i ∨ above = some j
  message? : ∀ j, b.message? j = if j = i then some m else a.message? j
  parent? : ∀ j, b.parent? j = if j = i then above else a.parent? j
  kids : ∀ j, b.kids j = if above = some j then a.kids j ++ [i] else a.kids j
  own : b.dateOf i = if a.kids i = [] then d else max (a.dateOf i) d
  new_parent : ∀ p, above = some p → p ∉ a.indices → b.dateOf p = b.dateOf i
  raised : ∀ p j, above = some p → a.Below p j → j ∈ a.indices →
    b.dateOf j = max (a.dateOf j) (b.dateOf i)
  kept : ∀ j ∈ a.indices, j ≠ i → (∀ p, above = some p → ¬ a.Below p j) → b.dateOf j = a.dateOf j

namespace Fills

variable {d' b' : Arena} {m : Index} {d : Rat} {above : Option Index}

theorem below (hf : a.Fills b id m d i) {x y : Index} : b.Below x y ↔ a.Below x y :=
  Below.congr hf.parent?

theorem parentless (hf : a.Fills b id m d i)
    (htop : ∀ i, a.message? i = none → a.parent? i = none)
    (hw : ∀ i, a.find? id = some i → a.message? i = none) : b.parent? i = none := by
  rw [hf.parent?]
  by_cases hi : i ∈ a.indices
  · exact htop i (hw i (hf.known hi))
  · exact parent?_of_notMem hi

theorem admits_free (hf : a.Fills d' id m d i) (hb : d'.Follows b i none) :
    a.Admits b id m d none i none where
  linked := hb.linked
  named := hf.named.congr hb.ids fun j => (hb.mem j).2
  known := hf.known
  new := hf.new
  keeps := fun hx => (find?_congr hb.ids _).trans (hf.keeps hx)
  own_id := fun hid => by rw [find?_congr hb.ids, hf.find?, if_pos ⟨rfl, hid⟩]
  find?_cases := fun hx => (hf.find?_cases ((find?_congr hb.ids _).symm.trans hx)).imp_right .inl
  target := fun hx => by cases hx
  free := fun _ => rfl
  mem := fun j => by simp [hb.mem, hf.mem]
  message? := fun j => (hb.message? j).trans (hf.message? j)
  parent? := fun j => by rw [hb.parent?, hf.parent?]
  kids := fun j => by rw [hb.kids, hf.kids]
  own := (hb.kept i fun _ hp => by cases hp).trans hf.own
  new_parent := fun _ hp => by cases hp
  raised := fun _ _ hp => by cases hp
  kept := fun j hj hne _ => (hb.kept j fun _ hp => by cases hp).trans (hf.other j hj hne)

section Under

variable {x : Text} (hf : a.Fills d' id m d i) (hs : d'.Seats b' x p)
  (habove : (a.Below p i ∧ above = none) ∨ (¬ a.Below p i ∧ above = some p))

include habove in
theorem above_eq {q : Index} (hq : above = some q) : q = p ∧ ¬ a.Below p i := by
  rcases habove with ⟨_, hnone⟩ | ⟨hpi, hsome⟩
  · rw [hnone] at hq
    cases hq
  · exact ⟨(Option.some.inj (hsome.symm.trans hq)).symm, hpi⟩

include hf habove in
theorem above_fresh (hp : p ∉ d'.indices) : above = some p := by
  rcases habove with ⟨hpi, _⟩ | ⟨_, hsome⟩
  · have hnone : a.parent? p = none := parent?_of_notMem fun hpa => hp ((hf.mem p).2 (.inl hpa))
    have hpi' : p = i := hpi.eq_of_parentless hnone
    exact absurd ((hf.mem p).2 (.inr hpi')) hp
  · exact hsome

include hf hs in
theorem below_seated (y z : Index) : b'.Below y z ↔ a.Below y z :=
  hs.trees.below.trans hf.below

include hf hs habove in
theorem mem_under (hb : b'.Follows b i above) (j : Index) :
    j ∈ b.indices ↔ j ∈ a.indices ∨ j = i ∨ above = some j := by
  rw [hb.mem, hs.mem, hf.mem, or_assoc]
  constructor
  · rintro (hj | hj | rfl)
    · exact .inl hj
    · exact .inr (.inl hj)
    · by_cases hp : j ∈ d'.indices
      · exact ((hf.mem j).1 hp).imp_right .inl
      · exact .inr (.inr (hf.above_fresh habove hp))
  · rintro (hj | hj | hj)
    · exact .inl hj
    · exact .inr (.inl hj)
    · exact .inr (.inr (above_eq habove hj).1)

include hf hs habove in
theorem own_under (hb : b'.Follows b i above) : b.dateOf i = d'.dateOf i := by
  rw [hb.kept i fun q hq hqi => ?_, hs.date i ((hf.mem i).2 (.inr rfl))]
  obtain ⟨rfl, hpi⟩ := above_eq habove hq
  exact hpi ((hf.below_seated hs q i).1 hqi)

include hf hs habove in
theorem find?_cases_under (hb : b'.Follows b i above) {y : Text} {q : Index}
    (hy : b.find? y = some q) :
    a.find? y = some q ∨ (y = id ∧ id ≠ .empty ∧ q = i) ∨
      (some x = some y ∧ above = some q ∧ q ∉ a.indices) := by
  rw [find?_congr hb.ids] at hy
  rcases hs.find?_cases hy with hy | ⟨rfl, _, rfl⟩
  · exact (hf.find?_cases hy).imp_right .inl
  · by_cases hp : q ∈ d'.indices
    · exact (hf.find?_cases (hs.known hp)).imp_right .inl
    · exact .inr (.inr ⟨rfl, hf.above_fresh habove hp, fun hpa => hp ((hf.mem q).2 (.inl hpa))⟩)

include hf hs habove in
theorem admits_under (hx : x ≠ .empty) (hnew : p ∉ d'.indices → b'.dateOf p = d'.dateOf i)
    (hb : b'.Follows b i above) : a.Admits b id m d (some x) i above := by
  have hdi : b'.dateOf i = d'.dateOf i := hs.date i ((hf.mem i).2 (.inr rfl))
  have hown := hf.own_under hs habove hb
  have hxp : b.find? x = some p := by
    rw [find?_congr hb.ids, hs.find?, if_pos ⟨rfl, hx⟩]
  refine
    { linked := hb.linked
      named := hs.named.congr hb.ids fun j => (hb.mem j).2
      known := hf.known
      new := hf.new
      keeps := fun hy => (find?_congr hb.ids _).trans (hs.keeps (hf.keeps hy))
      own_id := fun hid => (find?_congr hb.ids _).trans (hs.keeps (by
        rw [hf.find?, if_pos ⟨rfl, hid⟩]))
      find?_cases := hf.find?_cases_under hs habove hb
      target := ?_
      free := fun h => by cases h
      mem := hf.mem_under hs habove hb
      message? := fun j => by rw [hb.message?, hs.trees.message?, hf.message?]
      parent? := fun j => by rw [hb.parent?, hs.trees.parent?, hf.parent?]
      kids := fun j => by rw [hb.kids, hs.trees.kids, hf.kids]
      own := hown.trans hf.own
      new_parent := fun q hq hqa => ?_
      raised := fun q j hq hqj hj => ?_
      kept := fun j hj hne hq => ?_ }
  · rintro y ⟨⟩
    exact ⟨p, hxp, habove⟩
  · obtain ⟨rfl, hpi⟩ := above_eq habove hq
    have hne : q ≠ i := by
      rintro rfl
      exact hpi (.refl a q)
    have hqd : q ∉ d'.indices := fun hq' => ((hf.mem q).1 hq').elim hqa hne
    rw [hb.raised q q hq (.refl _ q), hnew hqd, hdi, hown, max_self]
  · obtain ⟨rfl, hpi⟩ := above_eq habove hq
    have hne : j ≠ i := by
      rintro rfl
      exact hpi hqj
    rw [hb.raised q j hq ((hf.below_seated hs q j).2 hqj), hs.date j ((hf.mem j).2 (.inl hj)),
      hf.other j hj hne, hdi, hown]
  · rw [hb.kept j fun q hq' hqj => hq q hq' ((hf.below_seated hs q j).1 hqj),
      hs.date j ((hf.mem j).2 (.inl hj)), hf.other j hj hne]

end Under

end Fills

/-- An arena that messages can come into: only containers with a message have parents. -/
structure Ready (a : Arena) : Prop where
  linked : a.Linked
  named : a.Named
  topmost : ∀ i, a.message? i = none → a.parent? i = none

/-- The message in the container `i` comes under the container of its parent reference, where that
link is not refused, and the dates above it are raised. -/
def follow (a : Arena) (i : Index) (parentId : Option Text) : Arena :=
  match parentId with
  | none => (a.raise i (a.dateOf i)).1
  | some x =>
    let (p, seated) := a.parentSeat x (a.dateOf i)
    match seated.link i p with
    | (linked, .ok true) => (linked.raise p (a.dateOf i)).1
    | (refused, _) => (refused.raise i (a.dateOf i)).1

def entered (a : Arena) (id : Text) (m : Index) (d : Rat) (parentId : Option Text) : Arena :=
  match (a.seat id).2.bind (a.seat id).1 m d with
  | .ok filled => filled.follow (a.seat id).1 parentId
  | .error _ => a

theorem entered_of_bind {m : Index} {d : Rat} {filled : Arena}
    (h : (a.seat id).2.bind (a.seat id).1 m d = .ok filled) (parentId : Option Text) :
    a.entered id m d parentId = filled.follow (a.seat id).1 parentId := by
  rw [entered, h]

theorem follow_none {c : Container} (hc : a.get? i = some c) (hb : a.raise i c.date = (b, none)) :
    a.follow i none = b := by
  rw [follow, dateOf_of_get? hc, hb]

theorem follow_refused {c : Container} {seated : Arena} {x : Text} (hc : a.get? i = some c)
    (hs : a.parentSeat x c.date = (p, seated)) (hl : seated.link i p = (seated, .ok false))
    (hb : seated.raise i c.date = (b, none)) : a.follow i (some x) = b := by
  simp only [follow, dateOf_of_get? hc, hs, hl, hb]

theorem follow_linked {c : Container} {seated linked : Arena} {x : Text} (hc : a.get? i = some c)
    (hs : a.parentSeat x c.date = (p, seated)) (hl : seated.link i p = (linked, .ok true))
    (hb : linked.raise p c.date = (b, none)) : a.follow i (some x) = b := by
  simp only [follow, dateOf_of_get? hc, hs, hl, hb]

/-- A message whose container is new or waits for it, and which names no parent, comes in. -/
theorem Ready.admit_free {m : Index} {d : Rat} (h : a.Ready)
    (hw : ∀ i, a.find? id = some i → a.message? i = none) :
    ∃ a' c b, (a.seat id).2.bind (a.seat id).1 m d = .ok a' ∧
      a'.get? (a.seat id).1 = some c ∧
      a'.raise (a.seat id).1 c.date = (b, none) ∧ b = a.entered id m d none ∧
      a.Admits b id m d none (a.seat id).1 none := by
  obtain ⟨a', ha', hf⟩ := seat_bind h.linked h.named id m d
  have hentered := entered_of_bind ha' none
  generalize (a.seat id).1 = i at ha' hf hentered ⊢
  have hi : i ∈ a'.indices := (hf.mem i).2 (.inr rfl)
  obtain ⟨c, hc⟩ := mem_indices.1 hi
  obtain ⟨b, hb, hfollow⟩ := hf.linked.raise_self hi (hf.parentless h.topmost hw)
  rw [dateOf_of_get? hc] at hb
  exact ⟨a', c, b, ha', hc, hb, ((follow_none hc hb).symm.trans hentered.symm),
    hf.admits_free hfollow⟩

/-- A message whose container is new or waits for it comes in under the container of `x`, or stays
without a parent where that lies in its own tree. -/
theorem Ready.admit_under {m : Index} {d : Rat} {x : Text} (h : a.Ready)
    (hw : ∀ i, a.find? id = some i → a.message? i = none) (hx : x ≠ .empty) :
    ∃ a' c, (a.seat id).2.bind (a.seat id).1 m d = .ok a' ∧ a'.get? (a.seat id).1 = some c ∧
      (∀ {y q}, a.find? y = some q → a'.find? y = some q) ∧
      (a.kids (a.seat id).1 = [] → c.date = d) ∧
      let i := (a.seat id).1
      let p := (a'.parentSeat x c.date).1
      let seated := (a'.parentSeat x c.date).2
      (∃ b, seated.link i p = (seated, .ok false) ∧ seated.raise i c.date = (b, none) ∧
        b = a.entered id m d (some x) ∧ a.Admits b id m d (some x) i none) ∨
      ∃ linked b, seated.link i p = (linked, .ok true) ∧ linked.raise p c.date = (b, none) ∧
        b = a.entered id m d (some x) ∧ a.Admits b id m d (some x) i (some p) := by
  obtain ⟨a', ha', hf⟩ := seat_bind h.linked h.named id m d
  have hentered := entered_of_bind ha' (some x)
  generalize (a.seat id).1 = i at ha' hf hentered ⊢
  have hi : i ∈ a'.indices := (hf.mem i).2 (.inr rfl)
  obtain ⟨c, hc⟩ := mem_indices.1 hi
  refine ⟨a', c, ha', hc, hf.keeps, fun hk => ?_, ?_⟩
  · rw [← dateOf_of_get? hc, hf.own, if_pos hk]
  obtain ⟨hs, hnew⟩ := parentSeat_seats hf.linked hf.named hx c.date
  generalize hps : a'.parentSeat x c.date = ps at hs hnew ⊢
  obtain ⟨p, seated⟩ := ps
  simp only at hs hnew ⊢
  have his : i ∈ seated.indices := (hs.mem i).2 (.inl hi)
  have hdate : seated.dateOf i = c.date := (hs.date i hi).trans (dateOf_of_get? hc)
  have hfree : seated.parent? i = none := (hs.trees.parent? i).trans (hf.parentless h.topmost hw)
  have hbelow : seated.Below p i ↔ a.Below p i := hs.trees.below.trans hf.below
  rw [← dateOf_of_get? hc] at hnew
  have hraise := hs.linked.raise_self his hfree
  have hlinks := hs.linked.link_raise his ((hs.mem p).2 (.inr rfl)) hfree
  rw [hdate] at hraise hlinks
  rw [hentered]
  rcases hlinks with ⟨hpi, hlink⟩ | ⟨hpi, linked, b, hlink, hb, hfollow⟩
  · obtain ⟨b, hb, hfollow⟩ := hraise
    exact .inl ⟨b, hlink, hb, (follow_refused hc hps hlink hb).symm,
      hf.admits_under hs (.inl ⟨hbelow.1 hpi, rfl⟩) hx hnew hfollow⟩
  · exact .inr ⟨linked, b, hlink, hb, (follow_linked hc hps hlink hb).symm,
      hf.admits_under hs (.inr ⟨fun hp => hpi (hbelow.2 hp), rfl⟩) hx hnew hfollow⟩

theorem Ready.entered_self {m : Index} {d : Rat} (h : a.Ready) (hi : a.find? id = some i)
    (hm : a.message? i = none) : a.entered id m d (some id) = a.entered id m d none := by
  have hseat := seat_of_find? h.named hi
  obtain ⟨a', ha', hf⟩ := seat_bind h.linked h.named id m d
  rw [entered_of_bind ha', entered_of_bind ha']
  rw [hseat] at hf ⊢
  have hia : i ∈ a'.indices := (hf.mem i).2 (.inr rfl)
  obtain ⟨c, hc⟩ := mem_indices.1 hia
  have hfree : a'.parent? i = none := hf.parentless h.topmost fun j hj => by
    cases hi.symm.trans hj
    exact hm
  obtain ⟨b, hb, _⟩ := hf.linked.raise_self hia hfree
  rw [dateOf_of_get? hc] at hb
  rcases hf.linked.link_raise hia hia hfree with ⟨_, hlink⟩ | ⟨hne, _⟩
  · rw [follow_none hc hb, follow_refused hc (parentSeat_of_find? (hf.keeps hi)) hlink hb]
  · exact absurd (.refl a' i) hne

end MailThread.Arena
