import MailThread.Listing.Order
import MailThread.Proofs.Text.Glob

namespace MailThread

theorem Text.ofString_append (s t : String) :
    Text.ofString (s ++ t) = Text.ofString s ++ Text.ofString t := by
  change Text.mk _ = Text.mk (_ ++ _)
  rw [String.toList_append, List.map_append, List.flatMap_append]
  rfl

theorem Text.map_units_ofString {s : String} (h : ∀ c ∈ s.toList, c.toNat < 0x10000) :
    (Text.ofString s).units.map UInt16.toNat = s.toList.map Char.toNat := by
  change ((s.toList.map Char.toNat).flatMap unitsOf).map UInt16.toNat = _
  rw [List.flatMap_map, List.map_flatMap, List.map_eq_flatMap]
  apply List.flatMap_congr
  intro c hc
  have hlow := h c hc
  rw [unitsOf, if_pos hlow, List.map_singleton, UInt16.toNat_ofNat_of_lt' hlow]

theorem Text.ofString_inj {s t : String} (hs : ∀ c ∈ s.toList, c.toNat < 0x10000)
    (ht : ∀ c ∈ t.toList, c.toNat < 0x10000) (h : Text.ofString s = Text.ofString t) : s = t := by
  have hunits := congrArg (fun t => t.units.map UInt16.toNat) h
  simp only [map_units_ofString hs, map_units_ofString ht] at hunits
  apply String.toList_inj.1
  exact List.map_injective_iff.2 (fun _ _ => Char.toNat_inj.1) hunits

theorem RowField.ofText?_eq_some_iff {t : Text} {f : RowField} :
    RowField.ofText? t = some f ↔ f.text = t := by
  constructor
  · intro h
    unfold ofText? at h
    simpa using List.find?_some h
  · rintro rfl
    cases f <;> decide

theorem Direction.ofText?_eq_some_iff {t : Text} {d : Direction} :
    Direction.ofText? t = some d ↔ d.text = t := by
  constructor
  · intro h
    unfold ofText? at h
    simpa using List.find?_some h
  · rintro rfl
    cases d <;> decide

namespace RowOrder

variable {t : Text} {o : RowOrder} {option : String}

/-- The texts for an order: its field and its direction, and the field alone for a descending one.
-/
def spellings (o : RowOrder) : List String :=
  (o.field.text ++ ":" ++ o.direction.text) ::
    if o.direction = .descending then [o.field.text] else []

/-- The text spells the order, blanks at its ends and the case of letters aside. -/
def Spells (t : Text) (o : RowOrder) : Prop := ∃ s ∈ o.spellings, t.trim.lower = Text.ofString s

theorem ofText?_eq_some_iff : ofText? t = some o ↔ Spells t o := by
  unfold ofText? Spells
  generalize t.trim.lower = u
  constructor
  · intro h
    obtain ⟨p, ps, hpieces, hunits, _⟩ := Text.pieces_eq_cons colon u.units
    rw [hpieces] at h
    match ps, hunits, h with
    | [], hunits, h =>
      obtain ⟨f, hf, h⟩ := Option.bind_eq_some_iff.1 h
      cases h
      refine ⟨f.text, by simp [spellings], ?_⟩
      rw [RowField.ofText?_eq_some_iff.1 hf]
      exact congrArg Text.mk (by simpa using hunits)
    | [q], hunits, h =>
      obtain ⟨f, hf, h⟩ := Option.bind_eq_some_iff.1 h
      obtain ⟨d, hd, h⟩ := Option.bind_eq_some_iff.1 h
      cases h
      refine ⟨_, List.mem_cons_self, ?_⟩
      have hcolon : Text.ofString ":" = ⟨[colon]⟩ := by decide
      rw [Text.ofString_append, Text.ofString_append, RowField.ofText?_eq_some_iff.1 hf,
        Direction.ofText?_eq_some_iff.1 hd, hcolon]
      change u = Text.mk (p ++ [colon] ++ q)
      exact congrArg Text.mk (by simpa using hunits)
  · rintro ⟨s, hs, rfl⟩
    obtain ⟨field, direction⟩ := o
    revert s
    cases field <;> cases direction <;> decide

end RowOrder

end MailThread
