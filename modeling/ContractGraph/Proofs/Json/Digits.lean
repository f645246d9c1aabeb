import ContractGraph.Proofs.Json.Ordered

/-!
# Whole numbers in stable texts

Putting a value in order keeps its whole numbers. So a plain value has a stable text unless it is
nested too deep or holds a number of too many digits. A record or an array has one when its parts
have one at one level less.
-/

namespace ContractGraph.Json

set_option autoImplicit false

variable {n levels : Nat}

theorem items_digits_le_iff {items : List Json} :
    itemsDigits items ≤ n ↔ ∀ v ∈ items, v.digits ≤ n := by
  induction items with
  | nil => simp [itemsDigits]
  | cons v rest ih => rw [itemsDigits, Nat.max_le, ih, List.forall_mem_cons]

theorem fields_digits_le_iff {fields : Fields} :
    fieldsDigits fields ≤ n ↔ ∀ f ∈ fields, f.1.digits ≤ n ∧ f.2.digits ≤ n := by
  induction fields with
  | nil => simp [fieldsDigits]
  | cons f rest ih => rw [fieldsDigits, Nat.max_le, Nat.max_le, ih, List.forall_mem_cons]

/-- The keys of a record are texts, so its numbers are those of its members. -/
theorem record_digits_le_iff {members : List (String × Json)} :
    (record members).digits ≤ n ↔ ∀ f ∈ members, f.2.digits ≤ n := by
  rw [record, digits, fields_digits_le_iff, List.forall_mem_map]
  exact forall₂_congr fun f _ => and_iff_right (Nat.zero_le n)

theorem sort_strings_perm (items : List Json) : (sortStrings items).Perm items := by
  rw [sortStrings]
  split
  · exact List.mergeSort_perm items notAfter
  · exact .refl items

theorem stable_array_digits_le_iff {items : List Json} :
    (arr items).stabilize.digits ≤ n ↔ ∀ v ∈ items, v.stabilize.digits ≤ n := by
  have sorts : ∀ v, v ∈ sortStrings (items.map stabilize) ↔ v ∈ items.map stabilize :=
    fun v => (sort_strings_perm (items.map stabilize)).mem_iff
  rw [stabilize, stabilize_items_eq, digits, items_digits_le_iff]
  simp only [sorts, List.forall_mem_map]

/-- What is left out is null and has no digits. -/
theorem stable_record_digits_le_iff {members : List (String × Json)} :
    (record members).stabilize.digits ≤ n ↔ ∀ f ∈ members, f.2.stabilize.digits ≤ n := by
  rw [stabilize_record, record_digits_le_iff]
  constructor
  · intro short f member
    cases null : f.2.isNull with
    | true =>
      obtain ⟨key, v⟩ := f
      cases v with
      | null => exact Nat.zero_le n
      | _ => cases null
    | false => exact short (f.1, f.2.stabilize) (mem_ordered_iff.mpr ⟨f.2, member, null, rfl⟩)
  · intro short f member
    obtain ⟨w, listed, -, same⟩ := mem_ordered_iff.mp member
    exact same ▸ short (f.1, w) listed

/-- A plain value that was put in order has the digits that it had before. -/
theorem Plain.stable_digits_le_iff {v : Json} (plain : Plain v) :
    v.stabilize.digits ≤ n ↔ v.digits ≤ n := by
  induction plain with
  | null => exact Iff.rfl
  | bool b => exact Iff.rfl
  | int i => exact Iff.rfl
  | str s => exact Iff.rfl
  | @arr items each ih =>
    rw [stable_array_digits_le_iff, digits, items_digits_le_iff]
    exact forall₂_congr ih
  | @obj members distinct each ih =>
    rw [← record, stable_record_digits_le_iff, record_digits_le_iff]
    exact forall₂_congr ih

/-- A value of at most so many levels that can be put in order and then written. -/
structure Stable (levels : Nat) (v : Json) : Prop where
  ordered : v.stableFault? levels = none
  short : v.stabilize.digits ≤ maxDigits

namespace Stable

theorem str (s : String) : Stable levels (.str s) := ⟨rfl, Nat.zero_le maxDigits⟩

theorem record {members : List (String × Json)} (each : ∀ f ∈ members, Stable levels f.2) :
    Stable (levels + 1) (record members) where
  ordered := record_fault_none fun f member => (each f member).ordered
  short := stable_record_digits_le_iff.mpr fun f member => (each f member).short

theorem array {items : List Json} (each : ∀ v ∈ items, Stable levels v) :
    Stable (levels + 1) (.arr items) where
  ordered := array_fault_none fun v member => (each v member).ordered
  short := stable_array_digits_le_iff.mpr fun v member => (each v member).short

theorem text {v : Json} (stable : Stable maxStableNesting v) :
    v.stableText = .ok v.stabilize.dense := by
  rw [stableText, stable.ordered]
  exact if_pos stable.short

end Stable

/-- The text of a plain value, by its levels and by its digits. -/
theorem Plain.stable_text {v : Json} (plain : Plain v) :
    v.stableText =
      if v.nesting ≤ maxStableNesting then
        if v.digits ≤ maxDigits then .ok v.stabilize.dense else .error .tooManyDigits
      else .error .tooDeep := by
  rw [stableText, plain.stable_fault]
  by_cases fits : v.nesting ≤ maxStableNesting
  · rw [if_pos fits, if_pos fits]
    simp only [plain.stable_digits_le_iff]
  · rw [if_neg fits, if_neg fits]

theorem Plain.dense_of_stable_text {v : Json} (plain : Plain v) {s : String}
    (text : v.stableText = .ok s) : s = v.stabilize.dense := by
  rw [plain.stable_text] at text
  split at text
  · split at text
    · cases text
      rfl
    · cases text
  · cases text

end ContractGraph.Json
