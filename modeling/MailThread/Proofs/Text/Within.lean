import MailThread.Proofs.Text.Glob
import Mathlib.Data.Bool.AllAny

namespace MailThread.Text

variable {α β γ δ : Type} {R S : α → β → Prop} {xs : List α} {ys : List β} {t us : List UInt16}
  {u v : UInt16} {n : Nat}

/-- What stands in `ys` between `before` and `after` is like `xs`, element by element. -/
def StandsBetween (R : α → β → Prop) (xs : List α) (before after ys : List β) : Prop :=
  ∃ place, ys = before ++ (place ++ after) ∧ List.Forall₂ R xs place

/-- Some stretch of `ys` is like `xs`, element by element. -/
def StandsIn (R : α → β → Prop) (xs : List α) (ys : List β) : Prop :=
  ∃ before after, StandsBetween R xs before after ys

theorem standsIn_congr (h : ∀ x ∈ xs, ∀ y ∈ ys, R x y ↔ S x y) :
    StandsIn R xs ys ↔ StandsIn S xs ys := by
  have hplace : ∀ before place after, ys = before ++ (place ++ after) →
      (List.Forall₂ R xs place ↔ List.Forall₂ S xs place) := by
    intro before place after hys
    have hmem : ∀ y ∈ place, y ∈ ys := by
      intro y hy
      simp [hys, hy]
    rw [List.forall₂_iff_get, List.forall₂_iff_get]
    refine and_congr_right fun _ => forall_congr' fun i => forall₂_congr fun hi hj => ?_
    exact h _ (List.get_mem xs ⟨i, hi⟩) _ (hmem _ (List.get_mem place ⟨i, hj⟩))
  exact exists_congr fun before => exists_congr fun after => exists_congr fun place =>
    and_congr_right (hplace before place after)

theorem standsIn_map {R : γ → δ → Prop} (f : α → γ) (g : β → δ) :
    StandsIn R (xs.map f) (ys.map g) ↔ StandsIn (fun x y => R (f x) (g y)) xs ys := by
  constructor
  · rintro ⟨before, after, place, hys, hplace⟩
    obtain ⟨b, rest, rfl, rfl, hrest⟩ := List.map_eq_append_iff.1 hys
    obtain ⟨p, a, rfl, rfl, rfl⟩ := List.map_eq_append_iff.1 hrest
    refine ⟨b, a, p, rfl, ?_⟩
    rwa [List.forall₂_map_left_iff, List.forall₂_map_right_iff] at hplace
  · rintro ⟨before, after, place, rfl, hplace⟩
    refine ⟨before.map g, after.map g, place.map g, by simp, ?_⟩
    rwa [List.forall₂_map_left_iff, List.forall₂_map_right_iff]

theorem occursIn_iff_segment : Glob.occursIn t us ↔ t <:+: us := by
  induction us with
  | nil => simp [Glob.occursIn]
  | cons u us ih =>
    rw [Glob.occursIn, Bool.or_eq_true, List.isPrefixOf_iff_prefix, ih, List.infix_cons_iff]

theorem occursIn_iff : Glob.occursIn t us ↔ StandsIn Eq t us := by
  rw [occursIn_iff_segment]
  constructor
  · rintro ⟨before, after, rfl⟩
    exact ⟨before, after, t, by simp, List.forall₂_eq_eq_eq ▸ rfl⟩
  · rintro ⟨before, after, place, rfl, hplace⟩
    rw [List.forall₂_eq_eq_eq] at hplace
    exact ⟨before, after, by simp [hplace]⟩

/-- The units of a text, each with what stands in its place in the lower-case form. -/
def lowered (t : Text) : List (UInt16 × UInt16) := t.units.zip t.lower.units

/-- Every unit of the two texts has one unit in its place in the lower-case form, and two units are
alike where those are the same. -/
structure JudgedAlike (s t : Text) : Prop where
  first : s.lower.length = s.length
  second : t.lower.length = t.length
  alike : ∀ p ∈ s.lowered, ∀ q ∈ t.lowered, Alike p.1 q.1 ↔ p.2 = q.2

theorem JudgedAlike.occursIn_iff {s t : Text} (h : JudgedAlike s t) :
    Glob.occursIn s.lower.units t.lower.units ↔ StandsIn Alike s.units t.units := by
  have hfst : ∀ {t : Text}, t.lower.length = t.length → t.lowered.map Prod.fst = t.units :=
    fun ht => List.map_fst_zip (Nat.le_of_eq ht.symm)
  have hsnd : ∀ {t : Text}, t.lower.length = t.length → t.lowered.map Prod.snd = t.lower.units :=
    fun ht => List.map_snd_zip (Nat.le_of_eq ht)
  rw [Text.occursIn_iff, ← hsnd h.first, ← hsnd h.second, standsIn_map, ← standsIn_congr h.alike,
    ← standsIn_map, hfst h.first, hfst h.second]

theorem pointsOf_eq_map {us : List UInt16} (h : ∀ u ∈ us, isFirstHalf u = false) :
    pointsOf us = us.map UInt16.toNat := by
  fun_induction pointsOf us with
  | case1 => rfl
  | case2 u => rfl
  | case3 u v us hpair ih => simp_all
  | case4 u v us hpair ih => simp_all

theorem lowerPoint_of_lt (h : n < 0x80) :
    lowerPoint n = if 0x41 ≤ n ∧ n ≤ 0x5A then n + 0x20 else n := by
  rw [lowerPoint, if_pos h]

theorem lowerFrom_ascii (before : List Nat) {ns : List Nat} (h : ∀ n ∈ ns, n < 0x80) :
    lowerFrom before ns = ns.map lowerPoint := by
  induction ns generalizing before with
  | nil => rfl
  | cons n ns ih =>
    obtain ⟨hn, hns⟩ := List.forall_mem_cons.1 h
    rw [lowerFrom, lowerAt, if_neg (by omega), if_neg (by omega), ih _ hns]
    rfl

theorem lower_ascii {t : Text} (h : ∀ u ∈ t.units, u.toNat < 0x80) :
    t.lower.units = t.units.map fun u => UInt16.ofNat (lowerPoint u.toNat) := by
  have hpoints : t.codePoints = t.units.map UInt16.toNat := by
    apply pointsOf_eq_map
    intro u hu
    have hlow := h u hu
    simp only [isFirstHalf, Bool.and_eq_false_iff, decide_eq_false_iff_not]
    omega
  have hsmall : ∀ n ∈ t.codePoints, n < 0x80 := by
    simpa [hpoints] using h
  have hunits : ∀ u ∈ t.units,
      unitsOf (lowerPoint u.toNat) = [UInt16.ofNat (lowerPoint u.toNat)] := by
    intro u hu
    have hlow := h u hu
    rw [unitsOf, if_pos]
    rw [lowerPoint_of_lt hlow]
    split <;> omega
  rw [lower, lowerFrom_ascii [] hsmall, hpoints, List.map_map, ofCodePoints, List.flatMap_map,
    List.map_eq_flatMap]
  exact List.flatMap_congr hunits

theorem alike_iff_lowerPoint (hu : u.toNat < 0x80) (hv : v.toNat < 0x80) :
    Alike u v ↔ UInt16.ofNat (lowerPoint u.toNat) = UInt16.ofNat (lowerPoint v.toNat) := by
  rw [Alike, ← UInt16.toNat_inj, toNat_fold_of_lt hu, toNat_fold_of_lt hv, ← UInt16.toNat_inj,
    UInt16.toNat_ofNat', UInt16.toNat_ofNat', lowerPoint_of_lt hu, lowerPoint_of_lt hv]
  split_ifs <;> omega

theorem judgedAlike_ascii {s t : Text} (hs : ∀ u ∈ s.units, u.toNat < 0x80)
    (ht : ∀ u ∈ t.units, u.toNat < 0x80) : JudgedAlike s t := by
  have hlength : ∀ {t : Text}, (∀ u ∈ t.units, u.toNat < 0x80) → t.lower.length = t.length := by
    intro t ht
    rw [Text.length, lower_ascii ht, List.length_map]
    rfl
  have hlowered : ∀ {t : Text}, (∀ u ∈ t.units, u.toNat < 0x80) → ∀ p ∈ t.lowered,
      p.1.toNat < 0x80 ∧ p.2 = UInt16.ofNat (lowerPoint p.1.toNat) := by
    intro t ht p hp
    rw [lowered, lower_ascii ht, ← List.map_prod_left_eq_zip, List.mem_map] at hp
    obtain ⟨u, hu, rfl⟩ := hp
    exact ⟨ht u hu, rfl⟩
  refine ⟨hlength hs, hlength ht, fun p hp q hq => ?_⟩
  obtain ⟨hp, hp'⟩ := hlowered hs p hp
  obtain ⟨hq, hq'⟩ := hlowered ht q hq
  rw [hp', hq']
  exact alike_iff_lowerPoint hp hq

theorem pieces_append [DecidableEq α] {sep : α} (h : sep ∉ xs) (ys : List α) :
    pieces sep (xs ++ sep :: ys) = xs :: pieces sep ys := by
  induction xs with
  | nil => simp [pieces]
  | cons x xs ih =>
    rw [List.mem_cons, not_or] at h
    rw [List.cons_append, pieces, if_neg (Ne.symm h.1), ih h.2]

namespace Glob

/-- Some stretch of `us` is `t` up to the case of letters, and no line end stands outside of it. -/
def StandsClear (t us : List UInt16) : Prop :=
  ∃ before after, StandsBetween Alike t before after us ∧
    ∀ u ∈ before ++ after, ¬ isLineEnd u.toNat

theorem StandsClear.standsIn (h : StandsClear t us) : StandsIn Alike t us := by
  obtain ⟨before, after, hplace, _⟩ := h
  exact ⟨before, after, hplace⟩

theorem standsClear_of_standsIn (hlines : ∀ u ∈ us, ¬ isLineEnd u.toNat)
    (h : StandsIn Alike t us) : StandsClear t us := by
  obtain ⟨before, after, place, rfl, hplace⟩ := h
  refine ⟨before, after, ⟨place, rfl, hplace⟩, fun u hu => hlines u ?_⟩
  rw [List.mem_append] at hu
  rcases hu with hu | hu <;> simp [hu]

theorem describes_opened : Describes [] [t, []] us ↔ StandsClear t us := by
  simp only [describes_cons, describes_nil]
  constructor
  · rintro ⟨s, before, _, rfl, hs, hbefore, place, after, last, rfl, hplace, hafter, hlast⟩
    cases hs
    cases hlast
    refine ⟨before, after, ⟨place, by simp, hplace⟩, ?_⟩
    exact List.forall_mem_append.2 ⟨hbefore, hafter⟩
  · rintro ⟨before, after, ⟨place, rfl, hplace⟩, hclear⟩
    obtain ⟨hbefore, hafter⟩ := List.forall_mem_append.1 hclear
    exact ⟨[], before, place ++ after, rfl, .nil, hbefore, place, after, [], by simp, hplace,
      hafter, .nil⟩

end Glob

end MailThread.Text

namespace MailThread.Subject

open Text Glob

/-- The term as a pattern that is open at both ends. -/
def opened (t : Text) : Text := "*" ++ t ++ "*"

theorem units_opened (t : Text) : (opened t).units = [] ++ star :: (t.units ++ [star]) := by
  have hstar : ("*" : Text).units = [star] := by decide
  change ("*" : Text).units ++ t.units ++ ("*" : Text).units = _
  rw [hstar]
  simp

theorem meets_opened_iff {term : Text} (h : star ∉ term.units) (subject : Text) :
    meets subject (opened term) ↔ StandsClear term.units subject.units := by
  have hpieces : pieces star (opened term).units = [[], term.units, []] := by
    rw [units_opened, pieces_append List.not_mem_nil, pieces_append h]
    rfl
  have hne : opened term ≠ .empty := by
    intro hempty
    have hunits := units_opened term
    rw [hempty] at hunits
    exact List.cons_ne_nil _ _ hunits.symm
  rw [meets, if_neg hne, if_pos (by simp [units_opened]), accepts_iff hpieces, describes_opened]

/-- On texts whose letters both ways of comparing judge alike, a term without stars and the same
term between two stars are met by the same subjects, except those in which the term stands but
nowhere without a line end before or behind it. -/
theorem meets_opened {term subject : Text} (hterm : term ≠ .empty) (hstar : star ∉ term.units)
    (hcase : JudgedAlike term subject) :
    (meets subject term = meets subject (opened term) ↔
      (StandsIn Alike term.units subject.units → StandsClear term.units subject.units)) ∧
      ((∀ u ∈ subject.units, ¬ isLineEnd u.toNat) →
        meets subject term = meets subject (opened term)) := by
  have hwithin : meets subject term ↔ StandsIn Alike term.units subject.units := by
    rw [meets, if_neg hterm, if_neg hstar, hcase.occursIn_iff]
  have hexact : meets subject term = meets subject (opened term) ↔
      (StandsIn Alike term.units subject.units → StandsClear term.units subject.units) := by
    rw [Bool.eq_iff_iff, hwithin, meets_opened_iff hstar]
    exact ⟨Iff.mp, fun h => ⟨h, StandsClear.standsIn⟩⟩
  exact ⟨hexact, fun hlines => hexact.2 (standsClear_of_standsIn hlines)⟩

/-- A term that stands in its subject twice, and not in the same letters. -/
theorem meets_opened_twice :
    JudgedAlike "re: p" "RE: Plan, re: PLAN" ∧ meets "RE: Plan, re: PLAN" "re: p" = true ∧
      meets "RE: Plan, re: PLAN" "re: p" = meets "RE: Plan, re: PLAN" (opened "re: p") := by
  have hcase : JudgedAlike "re: p" "RE: Plan, re: PLAN" :=
    judgedAlike_ascii (List.all_iff_forall_prop.1 (by decide))
      (List.all_iff_forall_prop.1 (by decide))
  obtain ⟨_, hequal⟩ := meets_opened (by decide) (by decide) hcase
  have hlines : ∀ u ∈ ("RE: Plan, re: PLAN" : Text).units, ¬ isLineEnd u.toNat :=
    List.all_iff_forall_prop.1 (by decide)
  have hmet : meets "RE: Plan, re: PLAN" "re: p" = true := by cbv
  exact ⟨hcase, hmet, hequal hlines⟩

/-- A subject of two lines, and one that starts with the Kelvin sign: the term is met, and between
two stars it is not. -/
theorem meets_opened_lines :
    meets "Weekly\nreport" "report" = true ∧ meets "Weekly\nreport" (opened "report") = false ∧
      meets "\u212A" "k" = true ∧ meets "\u212A" (opened "k") = false := by
  decide +kernel

end MailThread.Subject
