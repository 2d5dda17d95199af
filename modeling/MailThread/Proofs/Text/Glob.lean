import MailThread.Subject
import MailThread.Proofs.Text.Pattern

namespace MailThread.Text

/-- A list is made of the pieces between its separators. -/
theorem pieces_eq_cons {α : Type} [DecidableEq α] (sep : α) (xs : List α) :
    ∃ p ps, pieces sep xs = p :: ps ∧ xs = p ++ ps.flatMap (sep :: ·) ∧
      ∀ q ∈ p :: ps, sep ∉ q := by
  induction xs with
  | nil => exact ⟨[], [], rfl, rfl, by simp⟩
  | cons x xs ih =>
    obtain ⟨p, ps, hpieces, hxs, hnone⟩ := ih
    by_cases hx : x = sep
    · refine ⟨[], p :: ps, by rw [pieces, if_pos hx, hpieces], by simp [hx, hxs], ?_⟩
      exact List.forall_mem_cons.2 ⟨List.not_mem_nil, hnone⟩
    · refine ⟨x :: p, ps, by rw [pieces, if_neg hx, hpieces], by simp [hxs], ?_⟩
      obtain ⟨hp, hps⟩ := List.forall_mem_cons.1 hnone
      exact List.forall_mem_cons.2 ⟨List.not_mem_cons_of_ne_of_not_mem (Ne.symm hx) hp, hps⟩

theorem intercalate_cons {α : Type} (sep x : List α) (xs : List (List α)) :
    sep.intercalate (x :: xs) = x ++ xs.flatMap (sep ++ ·) := by
  induction xs generalizing x with
  | nil => simp
  | cons y ys ih => simp [List.intercalate_cons_cons, ih]

namespace Glob

open Pattern

variable {t : List UInt16} {ts : List (List UInt16)} {us : List UInt16} {n : Nat}

/-- All of `us` is the piece `t` and, for each further piece, a gap without a line end and that piece;
pieces are compared without regard to the case of letters. -/
def Describes (t : List UInt16) (ts : List (List UInt16)) (us : List UInt16) : Prop :=
  ∃ (s : List UInt16) (rest : List (List UInt16 × List UInt16)),
    us = s ++ (rest.flatMap fun (gap, s) => gap ++ s) ∧ List.Forall₂ Alike t s ∧
      List.Forall₂ (fun t (gap, s) => (∀ u ∈ gap, ¬ isLineEnd u.toNat) ∧ List.Forall₂ Alike t s)
        ts rest

theorem describes_nil : Describes t [] us ↔ List.Forall₂ Alike t us := by
  simp [Describes]

theorem describes_cons {q : List UInt16} :
    Describes t (q :: ts) us ↔ ∃ s gap rest, us = s ++ (gap ++ rest) ∧ List.Forall₂ Alike t s ∧
      (∀ u ∈ gap, ¬ isLineEnd u.toNat) ∧ Describes q ts rest := by
  constructor
  · rintro ⟨s, rest, rfl, hs, hrest⟩
    cases hrest with
    | @cons _ r _ rest hr hrest =>
      obtain ⟨gap, s'⟩ := r
      exact ⟨s, gap, _, by simp, hs, hr.1, s', rest, rfl, hr.2, hrest⟩
  · rintro ⟨s, gap, _, rfl, hs, hgap, s', rest, rfl, hs', hrest⟩
    exact ⟨s, (gap, s') :: rest, by simp, hs, .cons ⟨hgap, hs'⟩ hrest⟩

def items (t : List UInt16) : List (List UInt16) → List Item
  | [] => literals t ++ [.finish]
  | q :: ts => literals t ++ .many .any :: items q ts

theorem parse?_items (t : List UInt16) (ts : List (List UInt16)) :
    parse? (escape t ++ ((ts.flatMap fun t => anyMark :: repeatMark :: escape t) ++ [endMark])) =
      some (items t ts) := by
  induction ts generalizing t with
  | nil =>
    rw [List.flatMap_nil, List.nil_append, parse?_escape (by decide)]
    rfl
  | cons q ts ih =>
    rw [List.flatMap_cons, List.cons_append, List.cons_append, List.cons_append, List.cons_append,
      List.append_assoc, parse?_escape (by simp [anyMark, repeatMark]), parse?_gap, ih]
    rfl

theorem parse?_pattern {term : List UInt16} (h : pieces star term = t :: ts) :
    parse? (pattern term) = some (.start :: items t ts) := by
  have hpattern : pattern term = startMark :: (escape t ++
      ((ts.flatMap fun t => anyMark :: repeatMark :: escape t) ++ [endMark])) := by
    simp [pattern, h, intercalate_cons, List.flatMap_map]
  rw [hpattern, parse?_start, parse?_items]
  rfl

theorem matchAt_items : matchAt (items t ts) n us ↔ Describes t ts us := by
  induction ts generalizing t n us with
  | nil =>
    rw [items, matchAt_literals, describes_nil]
    simp [matchAt]
  | cons q ts ih =>
    rw [items, matchAt_literals, describes_cons]
    simp only [matchAt, stretch_iff, ih, Atom.accepts, Bool.not_eq_true']
    constructor
    · rintro ⟨s, _, rfl, hs, gap, rest, rfl, hgap, hrest⟩
      exact ⟨s, gap, rest, rfl, hs, by simpa using hgap, hrest⟩
    · rintro ⟨s, gap, rest, rfl, hs, hgap, hrest⟩
      exact ⟨s, _, rfl, hs, gap, rest, rfl, by simpa using hgap, hrest⟩

theorem accepts_iff {term : List UInt16} (h : pieces star term = t :: ts) :
    accepts term us ↔ Describes t ts us := by
  simp only [accepts, parse?_pattern h, found_start, matchAt_items]

end Glob

end MailThread.Text

namespace MailThread.Subject

open Text Glob Pattern

/-- A term with stars is met by the subjects that consist of its pieces, up to the case of letters, and
of a gap without a line end for each star, and by no others. The pattern that is made of the term can be
read whatever is in the term, and a special character is like itself alone. -/
theorem meets_iff_of_star (term : Text) (h : star ∈ term.units) :
    ∃ t ts, ts ≠ [] ∧ term.units = t ++ ts.flatMap (star :: ·) ∧ (∀ p ∈ t :: ts, star ∉ p) ∧
      (parse? (pattern term.units)).isSome ∧
      (∀ subject, meets subject term ↔ Describes t ts subject.units) ∧
      ∀ c ∈ special, ∀ u, Alike c u ↔ u = c := by
  obtain ⟨t, ts, hpieces, hterm, hstars⟩ := pieces_eq_cons star term.units
  have hts : ts ≠ [] := by
    rintro rfl
    rw [hterm, List.flatMap_nil, List.append_nil] at h
    exact hstars t List.mem_cons_self h
  have hne : term ≠ .empty := by
    rintro rfl
    exact absurd h List.not_mem_nil
  refine ⟨t, ts, hts, hterm, hstars, ?_, fun subject => ?_, fun c hc u => alike_iff_of_special hc⟩
  · rw [parse?_pattern hpieces]
    rfl
  · rw [meets, if_neg hne, if_pos h, accepts_iff hpieces]

/-- A term with special characters. Its last piece stands twice in the first subject, and the second
place is the one that counts; the dot is no other character, and the gap takes no line end. -/
theorem meets_iff_of_star_dotted :
    star ∈ ("re: *[a.b]" : Text).units ∧
      ∃ t ts, ("re: *[a.b]" : Text).units = t ++ ts.flatMap (star :: ·) ∧
        Describes t ts ("RE: [A.b] or [a.B]" : Text).units ∧
        ¬ Describes t ts ("Re: [axb]" : Text).units ∧
        ¬ Describes t ts ("Re: the\n[a.b]" : Text).units := by
  have hstar : star ∈ ("re: *[a.b]" : Text).units := by decide
  have hsecond : meets "RE: [A.b] or [a.B]" "re: *[a.b]" = true := by cbv
  have hdot : meets "Re: [axb]" "re: *[a.b]" = false := by cbv
  have hline : meets "Re: the\n[a.b]" "re: *[a.b]" = false := by cbv
  obtain ⟨t, ts, _, hterm, _, _, hmeets, _⟩ := meets_iff_of_star "re: *[a.b]" hstar
  rw [hmeets] at hsecond
  rw [← Bool.not_eq_true, hmeets] at hdot hline
  exact ⟨hstar, t, ts, hterm, hsecond, hdot, hline⟩

end MailThread.Subject
