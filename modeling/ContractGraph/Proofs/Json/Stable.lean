import ContractGraph.Json.Reading
import ContractGraph.Proofs.Json.Readable

/-!
# Values that can be put in order

Values with text keys can be put in order. So a record can when its members can at one level less,
and an array when its items can; a plain value can unless it is nested too deep.
-/

namespace ContractGraph.Json

set_option autoImplicit false

variable {α : Type} {levels : Nat}

theorem texts_hold_no_nan {items : List Json} (texts : ∀ v ∈ items, ∃ s, v = .str s) :
    someHoldsNan items = false := by
  induction items with
  | nil => rfl
  | cons v rest ih =>
    obtain ⟨s, rfl⟩ := texts v List.mem_cons_self
    have others := ih fun w member => texts w (List.mem_cons_of_mem _ member)
    simp [someHoldsNan, holdsNan, others]

theorem sort_on_texts {key : α → Json} {items : List α}
    (texts : ∀ a ∈ items, ∃ s, key a = .str s) :
    sortOn? key items = some (items.mergeSort fun a b => notAfter (key a) (key b)) := by
  have keys : ∀ v ∈ items.map key, ∃ s, v = .str s := by
    intro v member
    obtain ⟨a, here, rfl⟩ := List.mem_map.mp member
    exact texts a here
  have ordered : allOrdered (items.map key) = true := by
    have strings : (items.map key).all isString = true := by
      apply List.all_eq_true.mpr
      intro v member
      obtain ⟨s, rfl⟩ := keys v member
      rfl
    simp [allOrdered, strings]
  simp [sortOn?, texts_hold_no_nan keys, ordered]

theorem items_fault_eq (items : List Json) :
    itemsFault? levels items = (items.map (stableFault? levels)).findSome? id := by
  induction items with
  | nil => rfl
  | cons v rest ih =>
    rw [itemsFault?, ih, List.map_cons, List.findSome?_cons, id]
    cases v.stableFault? levels <;> rfl

theorem member_faults_eq (fields : Fields) :
    memberFaults levels fields = fields.map fun f => (f.1, f.2.stableFault? levels) := by
  induction fields with
  | nil => rfl
  | cons f rest ih => rw [memberFaults, ih, List.map_cons]

/-- The fault of a record is the first one of its members in some order. -/
theorem record_fault_eq (levels : Nat) (fields : List (String × Json)) :
    ∃ faults : List (Option StableFault), faults.Perm (fields.map fun f => f.2.stableFault? levels) ∧
      (record fields).stableFault? (levels + 1) = faults.findSome? id := by
  have keys : ∀ f ∈ memberFaults levels (fields.map fun f => (.str f.1, f.2)),
      ∃ s, ofKey f.1 = .str s := by
    intro f member
    rw [member_faults_eq, List.map_map] at member
    obtain ⟨g, -, rfl⟩ := List.mem_map.mp member
    exact ⟨g.1, rfl⟩
  have values : (memberFaults levels (fields.map fun f => (.str f.1, f.2))).map (·.2) =
      fields.map fun f => f.2.stableFault? levels := by
    rw [member_faults_eq, List.map_map, List.map_map]
    rfl
  have sorts := List.mergeSort_perm (memberFaults levels (fields.map fun f => (.str f.1, f.2)))
    fun a b => notAfter (ofKey a.1) (ofKey b.1)
  have faults := sorts.map Prod.snd
  rw [values] at faults
  refine ⟨_, faults, ?_⟩
  rw [record, stableFault?, sort_on_texts keys, List.findSome?_map]
  rfl

theorem record_fault_none {fields : List (String × Json)}
    (each : ∀ f ∈ fields, f.2.stableFault? levels = none) :
    (record fields).stableFault? (levels + 1) = none := by
  obtain ⟨faults, perm, found⟩ := record_fault_eq levels fields
  rw [found, List.findSome?_eq_none_iff]
  intro fault member
  obtain ⟨f, here, rfl⟩ := List.mem_map.mp (perm.mem_iff.mp member)
  exact each f here

theorem array_fault_none {items : List Json}
    (each : ∀ v ∈ items, v.stableFault? levels = none) :
    (arr items).stableFault? (levels + 1) = none := by
  rw [stableFault?, items_fault_eq, List.findSome?_eq_none_iff]
  intro fault member
  obtain ⟨v, here, rfl⟩ := List.mem_map.mp member
  exact each v here

theorem items_nesting_le_iff {items : List Json} {levels : Nat} :
    itemsNesting items ≤ levels ↔ ∀ v ∈ items, v.nesting ≤ levels := by
  induction items with
  | nil => simp [itemsNesting]
  | cons v rest ih => rw [itemsNesting, Nat.max_le, ih, List.forall_mem_cons]

theorem fields_nesting_le_iff {fields : Fields} {levels : Nat} :
    fieldsNesting fields ≤ levels ↔ ∀ f ∈ fields, f.2.nesting ≤ levels := by
  induction fields with
  | nil => simp [fieldsNesting]
  | cons f rest ih => rw [fieldsNesting, Nat.max_le, ih, List.forall_mem_cons]

theorem find_fault_eq {faults : List (Option StableFault)} {fits : Prop} [Decidable fits]
    (deep : ∀ fault ∈ faults, fault = none ∨ fault = some .tooDeep)
    (all : fits ↔ ∀ fault ∈ faults, fault = none) :
    faults.findSome? id = if fits then none else some .tooDeep := by
  split
  · next yes => exact List.findSome?_eq_none_iff.mpr (all.mp yes)
  · next no =>
    cases found : faults.findSome? id with
    | none => exact absurd (all.mpr (List.findSome?_eq_none_iff.mp found)) no
    | some c =>
      obtain ⟨fault, member, rfl⟩ := List.exists_of_findSome?_eq_some found
      exact (deep _ member).resolve_left (by simp)

/-- A plain value can be put in order unless it is nested too deep. -/
theorem Plain.stable_fault {v : Json} (plain : Plain v) (levels : Nat) :
    v.stableFault? levels = if v.nesting ≤ levels then none else some .tooDeep := by
  have limit : ∀ {levels : Nat} {w : Json},
      w.stableFault? levels = (if w.nesting ≤ levels then none else some .tooDeep) →
        (w.stableFault? levels = none ∨ w.stableFault? levels = some .tooDeep) ∧
          (w.stableFault? levels = none ↔ w.nesting ≤ levels) := by
    intro levels w same
    rw [same]
    split <;> simp_all
  induction plain generalizing levels with
  | null => simp [stableFault?, nesting]
  | bool b => simp [stableFault?, nesting]
  | int i => simp [stableFault?, nesting]
  | str s => simp [stableFault?, nesting]
  | @arr items each ih =>
    rcases levels with _ | levels
    · rfl
    rw [stableFault?, items_fault_eq]
    apply find_fault_eq
    · intro fault member
      obtain ⟨v, here, rfl⟩ := List.mem_map.mp member
      exact (limit (ih v here levels)).1
    · rw [nesting, Nat.add_le_add_iff_right, items_nesting_le_iff, List.forall_mem_map]
      exact forall₂_congr fun v here => (limit (ih v here levels)).2.symm
  | @obj members distinct each ih =>
    rcases levels with _ | levels
    · rfl
    obtain ⟨faults, perm, found⟩ := record_fault_eq levels members
    rw [← record, found]
    apply find_fault_eq
    · intro fault member
      obtain ⟨f, here, rfl⟩ := List.mem_map.mp (perm.mem_iff.mp member)
      exact (limit (ih f here levels)).1
    · rw [record, nesting, Nat.add_le_add_iff_right, fields_nesting_le_iff, List.forall_mem_map]
      constructor
      · intro fits fault member
        obtain ⟨f, here, rfl⟩ := List.mem_map.mp (perm.mem_iff.mp member)
        exact (limit (ih f here levels)).2.mpr (fits f here)
      · intro none f here
        exact (limit (ih f here levels)).2.mp
          (none _ (perm.mem_iff.mpr (List.mem_map.mpr ⟨f, here, rfl⟩)))

end ContractGraph.Json
