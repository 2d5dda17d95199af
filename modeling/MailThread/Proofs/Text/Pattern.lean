import MailThread.Text.Pattern
import MailThread.Proofs.Text.Case
import Mathlib.Data.List.Forall2

namespace MailThread.Text.Pattern

variable {u : UInt16} {us p : List UInt16} {ts : List Token} {is : List Item} {a : Atom} {n : Nat}
  {holds : Nat → List UInt16 → Bool}

def literals (us : List UInt16) : List Item := us.map fun u => .once (.unit u)

theorem tokens?_cons {t : Token} (hu : u ≠ escapeMark) (ht : Token.of? u = some t)
    (us : List UInt16) : tokens? false (u :: us) = (tokens? false us).map (t :: ·) := by
  rw [tokens?, if_neg Bool.false_ne_true, if_neg hu, ht]
  cases tokens? false us <;> rfl

theorem tokens?_plain (h : u ∉ special) (us : List UInt16) :
    tokens? false (u :: us) = (tokens? false us).map (.atom (.unit u) :: ·) := by
  have hmarks : u ≠ anyMark ∧ u ≠ repeatMark ∧ u ≠ startMark ∧ u ≠ endMark ∧ u ≠ escapeMark := by
    simp only [special, List.mem_cons, not_or] at h
    tauto
  obtain ⟨hany, hrepeat, hstart, hend, hescape⟩ := hmarks
  refine tokens?_cons hescape ?_ us
  rw [Token.of?, if_neg hany, if_neg hrepeat, if_neg hstart, if_neg hend, if_neg h]

/-- An escaped text is read back as itself. -/
theorem tokens?_escape (p us : List UInt16) :
    tokens? false (escape p ++ us) =
      (tokens? false us).map ((p.map fun u => .atom (.unit u)) ++ ·) := by
  induction p with
  | nil => simp [escape]
  | cons u p ih =>
    have hcons : escape (u :: p) ++ us =
        (if u ∈ special then [escapeMark, u] else [u]) ++ (escape p ++ us) := by
      simp [escape]
    rw [hcons]
    split
    next h =>
      have hread : tokens? false (escapeMark :: u :: (escape p ++ us)) =
          (tokens? false (escape p ++ us)).map (.atom (.unit u) :: ·) := by
        simp [tokens?, h]
      rw [List.cons_append, List.singleton_append, hread, ih, Option.map_map]
      rfl
    next h =>
      rw [List.singleton_append, tokens?_plain h, ih, Option.map_map]
      rfl

theorem items?_once (h : ts.head? ≠ some .again) (a : Atom) :
    items? (.atom a :: ts) = (items? ts).map (.once a :: ·) := by
  cases ts with
  | nil => rfl
  | cons t ts =>
    cases t with
    | again => exact absurd rfl h
    | _ => rfl

theorem items?_literals (h : ts.head? ≠ some .again) (p : List UInt16) :
    items? ((p.map fun u => .atom (.unit u)) ++ ts) = (items? ts).map (literals p ++ ·) := by
  induction p with
  | nil => simp [literals]
  | cons u p ih =>
    have hhead : ((p.map fun u => Token.atom (.unit u)) ++ ts).head? ≠ some .again := by
      cases p with
      | nil => exact h
      | cons v p => simp
    rw [List.map_cons, List.cons_append, items?_once hhead, ih, Option.map_map]
    rfl

theorem head?_tokens? (h : us.head? ≠ some repeatMark) (hts : tokens? false us = some ts) :
    ts.head? ≠ some .again := by
  cases us with
  | nil =>
    cases hts
    simp
  | cons u us =>
    have hu : u ≠ repeatMark := fun hu => h (hu ▸ rfl)
    by_cases hescape : u = escapeMark
    · cases us with
      | nil => simp [tokens?, hescape] at hts
      | cons v us =>
        simp only [tokens?, hescape, Bool.false_eq_true, if_false, if_true] at hts
        split at hts
        next =>
          obtain ⟨_, _, rfl⟩ := Option.map_eq_some_iff.1 hts
          simp
        next => cases hts
    · cases ht : Token.of? u with
      | none => simp [tokens?, hescape, ht] at hts
      | some t =>
        rw [tokens?_cons hescape ht] at hts
        obtain ⟨_, _, rfl⟩ := Option.map_eq_some_iff.1 hts
        rintro hagain
        obtain rfl : t = .again := Option.some.inj hagain
        simp only [Token.of?, if_neg hu] at ht
        split_ifs at ht <;> cases ht

theorem parse?_escape (h : us.head? ≠ some repeatMark) (p : List UInt16) :
    parse? (escape p ++ us) = (parse? us).map (literals p ++ ·) := by
  unfold parse?
  rw [tokens?_escape]
  cases hts : tokens? false us with
  | none => rfl
  | some ts => exact items?_literals (head?_tokens? h hts) p

theorem parse?_gap (us : List UInt16) :
    parse? (anyMark :: repeatMark :: us) = (parse? us).map (.many .any :: ·) := by
  have hread : tokens? false (anyMark :: repeatMark :: us) =
      (tokens? false us).map (.atom .any :: .again :: ·) := by
    rw [tokens?_cons (t := .atom .any) (by decide) rfl, tokens?_cons (t := .again) (by decide) rfl,
      Option.map_map]
    rfl
  rw [parse?, hread, parse?]
  cases tokens? false us <;> rfl

theorem parse?_start (us : List UInt16) :
    parse? (startMark :: us) = (parse? us).map (.start :: ·) := by
  rw [parse?, tokens?_cons (t := .start) (by decide) rfl, parse?]
  cases tokens? false us <;> rfl

theorem position_cons {α : Type} (n : Nat) (x : α) (xs : List α) :
    n + (x :: xs).length = n + 1 + xs.length := by
  rw [List.length_cons]
  omega

theorem stretch_iff :
    stretch a holds n us ↔
      ∃ g rest, us = g ++ rest ∧ (∀ u ∈ g, a.accepts u) ∧ holds (n + g.length) rest := by
  induction us generalizing n with
  | nil => simp [stretch]
  | cons u us ih =>
    simp only [stretch, Bool.or_eq_true, Bool.and_eq_true, ih]
    constructor
    · rintro (⟨hu, g, rest, rfl, hg, hrest⟩ | hnow)
      · exact ⟨u :: g, rest, rfl, List.forall_mem_cons.2 ⟨hu, hg⟩, by rwa [position_cons]⟩
      · exact ⟨[], u :: us, rfl, by simp, hnow⟩
    · rintro ⟨g, rest, hsplit, hg, hrest⟩
      cases g with
      | nil =>
        obtain rfl : u :: us = rest := hsplit
        exact .inr hrest
      | cons v g =>
        obtain ⟨rfl, rfl⟩ := List.cons.inj hsplit
        obtain ⟨hv, hg⟩ := List.forall_mem_cons.1 hg
        exact .inl ⟨hv, g, rest, rfl, hg, by rwa [position_cons] at hrest⟩

theorem matchAt_literals :
    matchAt (literals p ++ is) n us ↔
      ∃ s rest, us = s ++ rest ∧ List.Forall₂ Alike p s ∧ matchAt is (n + p.length) rest := by
  induction p generalizing n us with
  | nil => simp [literals]
  | cons u p ih =>
    cases us with
    | nil => simp [literals, matchAt]
    | cons v us =>
      have hstep : matchAt (literals (u :: p) ++ is) n (v :: us) ↔
          Alike u v ∧ matchAt (literals p ++ is) (n + 1) us := by
        simp [literals, matchAt, Atom.accepts, Alike]
      rw [hstep, ih]
      constructor
      · rintro ⟨huv, s, rest, rfl, hs, hrest⟩
        exact ⟨v :: s, rest, rfl, .cons huv hs, by rwa [position_cons]⟩
      · rintro ⟨s, rest, hsplit, hs, hrest⟩
        cases hs with
        | cons huv hs =>
          obtain ⟨rfl, rfl⟩ := List.cons.inj hsplit
          exact ⟨huv, _, rest, rfl, hs, by rwa [position_cons] at hrest⟩

theorem found_start (is : List Item) (us : List UInt16) :
    found (.start :: is) us = matchAt is 0 us := by
  have hlate : ∀ n us, foundFrom (.start :: is) (n + 1) us = false := by
    intro n us
    induction us generalizing n with
    | nil => simp [foundFrom, matchAt]
    | cons u us ih => simp [foundFrom, matchAt, ih]
  cases us with
  | nil => simp [found, foundFrom, matchAt]
  | cons u us => simp [found, foundFrom, matchAt, hlate]

theorem alike_iff_of_special {c : UInt16} (hc : c ∈ special) : Alike c u ↔ u = c := by
  have hplain : special.all fun c => decide (c.toNat < 0x80 ∧
      ¬ (0x41 ≤ c.toNat ∧ c.toNat ≤ 0x5A) ∧ ¬ (0x61 ≤ c.toNat ∧ c.toNat ≤ 0x7A)) := by decide
  obtain ⟨hlow, hupper, hlower⟩ := of_decide_eq_true (List.all_eq_true.1 hplain c hc)
  exact alike_iff_eq hlow hupper hlower

end MailThread.Text.Pattern
