import MailThread.Proofs.Arena.View
import Mathlib.Logic.Relation

namespace MailThread.Arena

variable {a b : Arena} {next : Container → Option Index} {start : Option Index} {l : List Index}
  {i j : Index}

/-- The containers met from `start` along the pointer `next`, up to one that points nowhere. -/
inductive Path (a : Arena) (next : Container → Option Index) : Option Index → List Index → Prop
  | stop : Path a next none []
  | step {i : Index} {c : Container} {l : List Index} :
      a.get? i = some c → Path a next (next c) l → Path a next (some i) (i :: l)

namespace Path

theorem mem_indices (h : a.Path next start l) (hj : j ∈ l) : j ∈ a.indices := by
  induction h with
  | stop => cases hj
  | step hc _ ih =>
    rcases List.mem_cons.1 hj with rfl | hj
    · exact mem_indices_of_get? hc
    · exact ih hj

theorem unique {l' : List Index} (h : a.Path next start l) (h' : a.Path next start l') :
    l = l' := by
  induction h generalizing l' with
  | stop => cases h'; rfl
  | step hc _ ih =>
    cases h' with
    | step hc' htail =>
      cases hc.symm.trans hc'
      rw [ih htail]

theorem of_mem (h : a.Path next start l) (hj : j ∈ l) :
    ∃ l', a.Path next (some j) (j :: l') ∧ l'.length < l.length ∧ l' ⊆ l := by
  induction h with
  | stop => cases hj
  | @step i c l hc htail ih =>
    rcases List.mem_cons.1 hj with rfl | hj
    · exact ⟨l, .step hc htail, by simp, List.subset_cons_self j l⟩
    · obtain ⟨l', hl', hlt, hsub⟩ := ih hj
      exact ⟨l', hl', by simp only [List.length_cons]; omega,
        fun k hk => List.mem_cons_of_mem i (hsub hk)⟩

theorem nodup (h : a.Path next start l) : l.Nodup := by
  induction h with
  | stop => exact List.nodup_nil
  | @step i c l hc htail ih =>
    refine List.nodup_cons.2 ⟨fun hi => ?_, ih⟩
    -- a walk that comes back to `i` would go on from there in two lengths
    obtain ⟨l', hl', hlt, _⟩ := htail.of_mem hi
    have he : i :: l' = i :: l := hl'.unique (.step hc htail)
    rw [(List.cons.inj he).2] at hlt
    omega

theorem length_le (h : a.Path next start l) : l.length ≤ a.size := by
  rw [← length_indices a]
  exact h.nodup.length_le_of_subset fun _ hj => h.mem_indices hj

theorem congr (h : a.Path next start l)
    (he : ∀ j ∈ l, (b.get? j).map next = (a.get? j).map next) : b.Path next start l := by
  induction h with
  | stop => exact .stop
  | @step i c l hc _ ih =>
    have hi := he i List.mem_cons_self
    rw [hc] at hi
    obtain ⟨d, hd, hn⟩ := Option.map_eq_some_iff.1 hi
    exact .step hd (hn ▸ ih fun j hj => he j (List.mem_cons_of_mem i hj))

/-- The last container of a walk can be made to point at one more. -/
theorem extend {last more : Index} {d e : Container} (h : a.Path next start (l ++ [last]))
    (he : ∀ j ∈ l, (b.get? j).map next = (a.get? j).map next)
    (hlast : b.get? last = some d) (hd : next d = some more)
    (hmore : b.get? more = some e) (hend : next e = none) :
    b.Path next start (l ++ [last] ++ [more]) := by
  induction l generalizing start with
  | nil =>
    cases h with
    | step _ _ => exact .step hlast (hd ▸ .step hmore (hend ▸ .stop))
  | cons k l ih =>
    cases h with
    | step hc htail =>
      have hk := he k List.mem_cons_self
      rw [hc] at hk
      obtain ⟨d', hd', hn⟩ := Option.map_eq_some_iff.1 hk
      exact .step hd' (hn ▸ ih htail fun j hj => he j (List.mem_cons_of_mem k hj))

end Path

theorem siblings_of_path {bound : Nat} (h : a.Path (·.nextSibling) start l)
    (hl : l.length ≤ bound) : a.siblings bound start = { visited := l } := by
  induction h generalizing bound with
  | stop => cases bound <;> rfl
  | @step i c l hc _ ih =>
    cases bound with
    | zero => simp at hl
    | succ bound =>
      have hrest := @ih bound (by simpa using hl)
      simp only [siblings, hc, hrest, Trail.cons]

theorem childTrail_of_path {c : Container} (h : a.Path (·.nextSibling) c.firstChild l) :
    a.childTrail c = { visited := l } :=
  siblings_of_path h (Nat.le_succ_of_le h.length_le)

theorem ascent_of_path {bound : Nat} (h : a.Path (·.parent) start l) (hl : l.length ≤ bound) :
    a.ascent bound start = { visited := l } := by
  induction h generalizing bound with
  | stop => cases bound <;> rfl
  | @step i c l hc _ ih =>
    cases bound with
    | zero => simp at hl
    | succ bound =>
      have hrest := @ih bound (by simpa using hl)
      simp only [ascent, hc, hrest, Trail.cons]

theorem wayUp_of_path (h : a.Path (·.parent) (some i) l) : a.wayUp i = { visited := l } :=
  ascent_of_path h (Nat.le_succ_of_le h.length_le)

end MailThread.Arena
