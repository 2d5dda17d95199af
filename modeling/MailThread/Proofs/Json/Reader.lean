import MailThread.Json.Reader

namespace MailThread.Json

/-- A character that stands for itself in a string. -/
def Plain (c : Char) : Prop := c ≠ '"' ∧ c ≠ '\\' ∧ 0x20 ≤ c.toNat

instance : DecidablePred Plain := fun _ => inferInstanceAs (Decidable (_ ∧ _ ∧ _))

variable {fuel : Nat} {cs rest : List Char} {v : Json}

theorem readString_quote (us : List UInt16) (rest : List Char) :
    readString us ('"' :: rest) = some (⟨us.reverse⟩, rest) := by
  rw [readString.eq_def]
  rfl

theorem readString_plain {c : Char} (h : Plain c) (us : List UInt16) (cs : List Char) :
    readString us (c :: cs) = readString ((Text.unitsOf c.toNat).reverse ++ us) cs := by
  obtain ⟨hquote, hslash, hlow⟩ := h
  rw [readString.eq_def]
  simp only [if_neg hquote, if_neg hslash, if_neg (Nat.not_lt_of_ge hlow)]

theorem plain_of_isDigit {c : Char} (h : c.isDigit) : Plain c := by
  refine ⟨?_, ?_, ?_⟩
  · rintro rfl
    cases h
  · rintro rfl
    cases h
  · simp only [Char.isDigit, Bool.and_eq_true, decide_eq_true_eq] at h
    exact Nat.le_trans (by decide) (UInt32.le_iff_toNat_le.1 h.1)

theorem readString_append (h : ∀ c ∈ cs, Plain c) (us : List UInt16) (rest : List Char) :
    readString us (cs ++ '"' :: rest) =
      some (⟨us.reverse ++ cs.flatMap fun c => Text.unitsOf c.toNat⟩, rest) := by
  induction cs generalizing us with
  | nil => rw [List.nil_append, readString_quote, List.flatMap_nil, List.append_nil]
  | cons c cs ih =>
    rw [List.forall_mem_cons] at h
    rw [List.cons_append, readString_plain h.1, ih h.2, List.flatMap_cons, List.reverse_append,
      List.reverse_reverse, List.append_assoc]

theorem readString_toList {s : String} (h : ∀ c ∈ s.toList, Plain c) (rest : List Char) :
    readString [] (s.toList ++ '"' :: rest) = some (Text.ofString s, rest) := by
  rw [readString_append h, Text.ofString, Text.ofCodePoints, List.flatMap_map]
  rfl

theorem readValue_string {s : String} (h : ∀ c ∈ s.toList, Plain c) (fuel : Nat)
    (rest : List Char) :
    readValue (fuel + 1) ('"' :: (s.toList ++ '"' :: rest)) = some (.str (Text.ofString s), rest) := by
  simp only [readValue, readString_toList h, Option.map_some]

theorem readValue_object (fuel : Nat) (cs : List Char) :
    readValue (fuel + 1) ('\x7b' :: '"' :: cs) = readFields fuel [] ('"' :: cs) := by
  have hgap : skipGap ('"' :: cs) = '"' :: cs := List.dropWhile_cons_of_neg (by decide)
  simp only [readValue, hgap]
  rfl

theorem readValue_array (fuel : Nat) (cs : List Char) :
    readValue (fuel + 1) ('[' :: '\x7b' :: cs) = readItems fuel [] ('\x7b' :: cs) := by
  have hgap : skipGap ('\x7b' :: cs) = '\x7b' :: cs := List.dropWhile_cons_of_neg (by decide)
  simp only [readValue, hgap]
  rfl

theorem readItems_cons (hgap : skipGap cs = cs) (hv : readValue fuel cs = some (v, rest))
    (done : List Json) :
    readItems (fuel + 1) done cs =
      match skipGap rest with
      | ',' :: rest => readItems fuel (v :: done) rest
      | ']' :: rest => some (arr (v :: done).reverse, rest)
      | _ => none := by
  apply Eq.trans
  · rw [readItems, hgap, hv]
  · rfl

/-- A field and what follows it in an object. -/
theorem readFields_cons (key : String) (hkey : ∀ c ∈ key.toList, Plain c) (hgap : skipGap cs = cs)
    (hv : readValue fuel cs = some (v, rest)) (done : List (String × Json)) :
    readFields (fuel + 1) done ('"' :: (key.toList ++ '"' :: ':' :: cs)) =
      let done := putField done (Text.ofString key).toString v
      match skipGap rest with
      | ',' :: rest => readFields fuel done rest
      | '}' :: rest => some (obj done, rest)
      | _ => none := by
  have hquote (tail : List Char) : skipGap ('"' :: tail) = '"' :: tail :=
    List.dropWhile_cons_of_neg (by decide)
  have hcolon : skipGap (':' :: cs) = ':' :: cs := List.dropWhile_cons_of_neg (by decide)
  apply Eq.trans
  · simp only [readFields, hquote, readString_toList hkey, hcolon, hgap, hv]
    rfl
  · rfl

section

variable {α : Type} {text : α → List Char} {value : α → Json} {bound : Nat} {xs : List α}
  (hopen : ∀ x ∈ xs, ∃ cs, text x = '\x7b' :: cs)
  (hread : ∀ x ∈ xs, ∀ fuel rest, readValue (fuel + bound) (text x ++ rest) = some (value x, rest))
include hopen hread

/-- Objects with commas between them are read one after another, if each is read as it stands there. -/
theorem readItems_intercalate (hne : xs ≠ []) (fuel : Nat) (done : List Json) (rest : List Char) :
    readItems (fuel + bound + xs.length) done ([','].intercalate (xs.map text) ++ ']' :: rest) =
      some (.arr (done.reverse ++ xs.map value), rest) := by
  induction xs generalizing done with
  | nil => exact absurd rfl hne
  | cons x xs ih =>
    rw [List.forall_mem_cons] at hopen hread
    obtain ⟨cs, hcs⟩ := hopen.1
    have hgap (tail : List Char) : skipGap (text x ++ tail) = text x ++ tail := by
      rw [hcs]
      exact List.dropWhile_cons_of_neg (by decide)
    cases xs with
    | nil =>
      rw [List.map_singleton, List.intercalate_singleton, List.length_singleton,
        readItems_cons (hgap _) (hread.1 fuel _), List.map_singleton, ← List.reverse_cons]
      rfl
    | cons y ys =>
      have htext : [','].intercalate ((x :: y :: ys).map text) ++ ']' :: rest =
          text x ++ ',' :: ([','].intercalate ((y :: ys).map text) ++ ']' :: rest) := by
        rw [List.map_cons, List.map_cons, List.intercalate_cons_cons]
        simp
      have hfirst (tail : List Char) := hread.1 (fuel + (y :: ys).length) tail
      rw [htext, List.length_cons, ← Nat.add_assoc, readItems_cons (hgap _)
        (Nat.add_right_comm fuel _ bound ▸ hfirst _)]
      -- behind the comma the other items are read
      refine (ih hopen.2 hread.2 (List.cons_ne_nil y ys) (value x :: done)).trans ?_
      rw [List.reverse_cons, List.append_assoc]
      rfl

omit hread in
theorem exists_intercalate (hne : xs ≠ []) (tail : List Char) :
    ∃ cs, [','].intercalate (xs.map text) ++ tail = '\x7b' :: cs := by
  cases xs with
  | nil => exact absurd rfl hne
  | cons x xs =>
    obtain ⟨cs, hcs⟩ := hopen x List.mem_cons_self
    cases xs with
    | nil => simp [hcs]
    | cons y ys => simp [List.intercalate_cons_cons, hcs]

omit hread in
theorem length_le_intercalate : xs.length ≤ ([','].intercalate (xs.map text)).length := by
  induction xs with
  | nil => exact Nat.zero_le _
  | cons x xs ih =>
    rw [List.forall_mem_cons] at hopen
    obtain ⟨cs, hcs⟩ := hopen.1
    cases xs with
    | nil => simp [hcs]
    | cons y ys =>
      have hrest := ih hopen.2
      rw [List.map_cons, List.map_cons, List.intercalate_cons_cons, ← List.map_cons]
      simp only [List.length_append, List.length_cons, hcs] at hrest ⊢
      omega

/-- The text of a list is read whole. -/
theorem read?_intercalate (hne : xs ≠ []) (hbound : bound ≤ 5) {s : String}
    (hs : s.toList = '[' :: ([','].intercalate (xs.map text) ++ [']'])) :
    read? s = some (.arr (xs.map value)) := by
  have hlength := length_le_intercalate hopen
  obtain ⟨cs, hcs⟩ := exists_intercalate hopen hne [']']
  have hgap : skipGap ('[' :: '\x7b' :: cs) = '[' :: '\x7b' :: cs :=
    List.dropWhile_cons_of_neg (by decide)
  obtain ⟨fuel, hfuel⟩ : ∃ fuel,
      2 * ('[' :: '\x7b' :: cs).length + 2 = fuel + bound + xs.length + 1 := by
    refine ⟨2 * ('[' :: '\x7b' :: cs).length + 1 - bound - xs.length, ?_⟩
    rw [← hcs, List.length_cons, List.length_append, List.length_singleton]
    omega
  have hitems := readItems_intercalate hopen hread hne fuel [] []
  rw [read?, hs, hcs, hgap, hfuel, readValue_array, ← hcs, hitems]
  rfl

end

end MailThread.Json
