import ContractGraph.Proofs.Json.Equivalent

/-!
# Records put in order

Records that have the same keys are put in order alike exactly when the values under each key are. An
array of anything but texts keeps the places of its items. So a stable text that is made of records
with given keys splits into the stable texts of their parts.
-/

namespace ContractGraph.Json

set_option autoImplicit false

theorem Plain.record {members : List (String × Json)} (distinct : (members.map (·.1)).Nodup)
    (each : ∀ f ∈ members, Plain f.2) : Plain (record members) := .obj distinct each

theorem Plain.texts (texts : List String) : Plain (strings texts) := by
  refine .arr fun v member => ?_
  obtain ⟨s, -, rfl⟩ := List.mem_map.mp member
  exact .str s

theorem texts_nesting (texts : List String) : (strings texts).nesting = 1 := by
  have flat : itemsNesting (texts.map .str) ≤ 0 := by
    refine items_nesting_le_iff.mpr fun v member => ?_
    obtain ⟨s, -, rfl⟩ := List.mem_map.mp member
    exact Nat.le_refl 0
  rw [strings, nesting, Nat.le_zero.mp flat]

theorem texts_digits_le (texts : List String) {n : Nat} : (strings texts).digits ≤ n := by
  rw [strings, digits, items_digits_le_iff, List.forall_mem_map]
  intro s _
  exact Nat.zero_le n

/-- The dense text of a plain value that was put in order is the text of no other one. -/
theorem Plain.dense_eq_iff {a b : Json} (first : Plain a) (second : Plain b) :
    a.stabilize.dense = b.stabilize.dense ↔ a.stabilize = b.stabilize := by
  constructor
  · exact dense_injective first.stabilize second.stabilize
  · exact congrArg dense

theorem eq_null_of_is_null {v : Json} (null : v.isNull = true) : v = .null := by
  cases v <;> first | rfl | cases null

/-- The order of the members does not count. -/
theorem stabilize_record_of_perm {as bs : List (String × Json)} (distinct : (as.map (·.1)).Nodup)
    (perm : as.Perm bs) : (record as).stabilize = (record bs).stabilize := by
  have apart : (bs.map (·.1)).Nodup := (perm.map _).nodup_iff.mp distinct
  have same : orderedMembers as = orderedMembers bs := by
    refine ordered_unique distinct apart fun key v => ?_
    simp only [mem_ordered_iff, perm.mem_iff]
  rw [stabilize_record, stabilize_record, same]

/-- A member that is not null has its like among the members of an object that is put in order to the
same. -/
theorem stabilize_eq_of_ordered {as bs : List (String × Json)} (distinct : (bs.map (·.1)).Nodup)
    (same : orderedMembers as = orderedMembers bs) {key : String} {v w : Json}
    (left : (key, v) ∈ as) (right : (key, w) ∈ bs) (kept : v.isNull = false) :
    v.stabilize = w.stabilize := by
  have there : (key, v.stabilize) ∈ orderedMembers as := mem_ordered_iff.mpr ⟨v, left, kept, rfl⟩
  rw [same] at there
  obtain ⟨w', listed, -, equal⟩ := mem_ordered_iff.mp there
  have one := List.inj_on_of_nodup_map distinct listed right rfl
  cases one
  exact equal.symm

/-- The values under each key decide; a null is put in order like no other value. -/
theorem stabilize_record_eq_iff {as bs : List (String × Json)} (keys : as.map (·.1) = bs.map (·.1))
    (distinct : (as.map (·.1)).Nodup) :
    (record as).stabilize = (record bs).stabilize ↔
      as.map (·.2.stabilize) = bs.map (·.2.stabilize) := by
  have apart : (bs.map (·.1)).Nodup := keys ▸ distinct
  rw [stabilize_record, stabilize_record]
  constructor
  · intro same
    have ordered := record_inj same
    obtain ⟨length, names⟩ := map_eq_iff_zip.mp keys
    refine map_eq_iff_zip.mpr ⟨length, ?_⟩
    rintro ⟨⟨key, v⟩, ⟨key', w⟩⟩ place
    obtain rfl : key = key' := names _ place
    obtain ⟨left, right⟩ := List.of_mem_zip place
    -- Nulls are left out, so a null has no like to be found; the other value is found instead.
    cases null : v.isNull with
    | false => exact stabilize_eq_of_ordered apart ordered left right null
    | true =>
      cases other : w.isNull with
      | false => exact (stabilize_eq_of_ordered distinct ordered.symm right left other).symm
      | true => rw [eq_null_of_is_null null, eq_null_of_is_null other]
  · intro same
    rw [orderedMembers, orderedMembers, ← List.zip_map', ← List.zip_map', keys, same]

/-- Arrays of texts are put in order alike when they hold the same texts, each as often. -/
theorem stabilize_texts_eq_iff {texts others : List String} :
    (strings texts).stabilize = (strings others).stabilize ↔ texts.Perm others := by
  have injective : ∀ {ss ts : List String}, strings ss = strings ts ↔ ss = ts := by
    intro ss ts
    rw [strings, strings, arr.injEq]
    exact List.map_inj_right fun _ _ => Json.str.inj
  rw [stabilize_texts, stabilize_texts, injective, Text.sorted_eq_iff]

/-- An array without texts keeps the places of its items. -/
theorem stabilize_objects {items : List Json} (objects : ∀ v ∈ items, v.isString = false) :
    (arr items).stabilize = .arr (items.map stabilize) := by
  cases items with
  | nil => simp [stabilize, stabilizeItems, sortStrings]
  | cons v rest =>
    apply stabilize_other
    intro only
    have text := only v List.mem_cons_self
    rw [objects v List.mem_cons_self] at text
    cases text

end ContractGraph.Json
