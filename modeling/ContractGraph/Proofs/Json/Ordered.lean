import ContractGraph.Proofs.Json.Readable
import ContractGraph.Proofs.Json.Stable
import ContractGraph.Text.Sorted
import Mathlib.Data.List.Basic

/-!
# Values put in order

What putting a value in order makes of each kind of value. Texts are sorted, other arrays keep the
places of their items, and the members of an object that are not null stand in the order of their
keys, so that an object in order is determined by which members it has.
-/

namespace ContractGraph.Json

set_option autoImplicit false

def OnlyTexts (items : List Json) : Prop := ∀ v ∈ items, v.isString = true

theorem stabilize_items_eq (items : List Json) : stabilizeItems items = items.map stabilize := by
  induction items with
  | nil => rfl
  | cons v rest ih => rw [stabilizeItems, ih, List.map_cons]

theorem stabilize_fields_eq (fields : Fields) :
    stabilizeFields fields = fields.map fun f => (f.1, f.2.stabilize) := by
  induction fields with
  | nil => rfl
  | cons f rest ih => rw [stabilizeFields, ih, List.map_cons]

@[simp] theorem is_string_stabilize (v : Json) : v.stabilize.isString = v.isString := by
  cases v <;> simp [stabilize, isString]

@[simp] theorem is_null_stabilize (v : Json) : v.stabilize.isNull = v.isNull := by
  cases v <;> simp [stabilize, isNull]

theorem not_after_texts (a b : String) : notAfter (.str a) (.str b) = Text.atMost a b := by
  have flip : decide (b < a) = !decide (a ≤ b) := by
    rw [← decide_not]
    exact decide_eq_decide.mpr String.not_le.symm
  simp only [notAfter, before, before?, Text.atMost]
  rw [flip]
  cases decide (a ≤ b) <;> rfl

theorem sort_strings_texts (texts : List String) :
    sortStrings (texts.map .str) = (Text.sorted texts).map .str := by
  have strings : (texts.map Json.str).all isString = true := by simp [isString]
  rw [sortStrings, if_pos strings, Text.sorted]
  exact (List.map_mergeSort fun a _ b _ => (not_after_texts a b).symm).symm

theorem sort_texts (texts : List String) :
    sort? (texts.map .str) = some ((Text.sorted texts).map .str) := by
  have strings : ∀ v ∈ texts.map Json.str, ∃ s, id v = .str s := by
    intro v member
    obtain ⟨s, -, rfl⟩ := List.mem_map.mp member
    exact ⟨s, rfl⟩
  rw [sort?, sort_on_texts strings, Text.sorted]
  exact congrArg some (List.map_mergeSort fun a _ b _ => (not_after_texts a b).symm).symm

theorem stabilize_texts (texts : List String) :
    (strings texts).stabilize = strings (Text.sorted texts) := by
  have same : (texts.map Json.str).map stabilize = texts.map .str := by
    rw [List.map_map]
    rfl
  rw [strings, stabilize, stabilize_items_eq, same, sort_strings_texts]
  rfl

theorem only_texts_iff {items : List Json} :
    OnlyTexts items ↔ (items.map stabilize).all isString = true := by
  simp [OnlyTexts]

theorem stabilize_other {items : List Json} (other : ¬ OnlyTexts items) :
    (arr items).stabilize = .arr (items.map stabilize) := by
  rw [stabilize, stabilize_items_eq, sortStrings, if_neg (only_texts_iff.not.mp other)]

theorem texts_of_only_texts {items : List Json} (only : OnlyTexts items) :
    ∃ texts : List String, items = texts.map .str := by
  induction items with
  | nil => exact ⟨[], rfl⟩
  | cons v rest ih =>
    obtain ⟨texts, rfl⟩ := ih fun w member => only w (List.mem_cons_of_mem v member)
    have first := only v List.mem_cons_self
    cases v with
    | str s => exact ⟨s :: texts, rfl⟩
    | _ => cases first

theorem only_texts_map (texts : List String) : OnlyTexts (texts.map .str) := by
  intro v member
  obtain ⟨s, -, rfl⟩ := List.mem_map.mp member
  rfl

/-- Putting an array in order does not change whether it holds texts only. -/
theorem only_texts_stable {as bs : List Json} (same : (arr as).stabilize = (arr bs).stabilize) :
    OnlyTexts as ↔ OnlyTexts bs := by
  have kept : ∀ items, ∃ stable, (arr items).stabilize = .arr stable ∧
      (OnlyTexts items ↔ OnlyTexts stable) := by
    intro items
    by_cases only : OnlyTexts items
    · obtain ⟨texts, rfl⟩ := texts_of_only_texts only
      exact ⟨_, stabilize_texts texts, iff_of_true only (only_texts_map _)⟩
    · refine ⟨_, stabilize_other only, ?_⟩
      simp [OnlyTexts]
  obtain ⟨left, first, texts⟩ := kept as
  obtain ⟨right, second, others⟩ := kept bs
  rw [first, second] at same
  rw [texts, others, Json.arr.inj same]

/-- The members of a stable object: in the order of their keys, their values put in order as well,
and none of them null. -/
def orderedMembers (members : List (String × Json)) : List (String × Json) :=
  (Text.sortedOn (·.1) (members.map fun f => (f.1, f.2.stabilize))).filter fun f => !isNull f.2

theorem stabilize_record (members : List (String × Json)) :
    (record members).stabilize = record (orderedMembers members) := by
  have texts : ∀ f ∈ (members.map fun f => (f.1, f.2.stabilize)).map
      (fun f => ((Key.str f.1, f.2) : Key × Json)), ∃ s, ofKey f.1 = .str s := by
    intro f member
    obtain ⟨g, -, rfl⟩ := List.mem_map.mp member
    exact ⟨g.1, rfl⟩
  have sorted := sort_on_texts texts
  rw [← List.map_mergeSort (r := fun a b => Text.atMost a.1 b.1)
    (fun a _ b _ => (not_after_texts a.1 b.1).symm)] at sorted
  have fields : stabilizeFields (members.map fun f => (.str f.1, f.2)) =
      (members.map fun f => (f.1, f.2.stabilize)).map fun f => (.str f.1, f.2) := by
    rw [stabilize_fields_eq, List.map_map, List.map_map]
    rfl
  rw [record, stabilize, fields, sortMembers, sorted, Option.getD_some, List.filter_map]
  rfl

theorem mem_ordered_iff {members : List (String × Json)} {key : String} {v : Json} :
    (key, v) ∈ orderedMembers members ↔
      ∃ w, (key, w) ∈ members ∧ w.isNull = false ∧ w.stabilize = v := by
  have perm := List.mergeSort_perm (members.map fun f => (f.1, f.2.stabilize))
    fun a b => Text.atMost a.1 b.1
  rw [orderedMembers, List.mem_filter, Text.sortedOn, perm.mem_iff, List.mem_map]
  constructor
  · intro given
    rcases given with ⟨⟨⟨k, w⟩, member, same⟩, kept⟩
    cases same
    exact ⟨w, member, by simpa using kept, rfl⟩
  · intro given
    rcases given with ⟨w, member, kept, rfl⟩
    exact ⟨⟨(key, w), member, rfl⟩, by simpa using kept⟩

theorem ordered_ascends {members : List (String × Json)} (distinct : (members.map (·.1)).Nodup) :
    ((orderedMembers members).map (·.1)).Pairwise (· < ·) := by
  have keys : ((members.map fun f => (f.1, f.2.stabilize)).map (·.1)) = members.map (·.1) := by
    rw [List.map_map]
    rfl
  have whole : ((Text.sortedOn (·.1) (members.map fun f => (f.1, f.2.stabilize))).map
      (·.1)).Pairwise (· < ·) := by
    rw [Text.map_sorted_on, keys]
    exact Text.sorted_ascending distinct
  exact whole.sublist (List.Sublist.map _ List.filter_sublist)

/-- Stable objects with the same members are equal. -/
theorem ordered_unique {as bs : List (String × Json)} (first : (as.map (·.1)).Nodup)
    (second : (bs.map (·.1)).Nodup)
    (same : ∀ key v, (key, v) ∈ orderedMembers as ↔ (key, v) ∈ orderedMembers bs) :
    orderedMembers as = orderedMembers bs := by
  refine Text.eq_of_ascending_on (List.pairwise_map.mp (ordered_ascends first))
    (List.pairwise_map.mp (ordered_ascends second)) ?_
  intro f
  exact same f.1 f.2

theorem record_inj {as bs : List (String × Json)} (same : record as = record bs) : as = bs := by
  have pairs := Json.obj.inj same
  refine List.map_injective_iff.mpr ?_ pairs
  intro f g equal
  obtain ⟨key, value⟩ := Prod.mk.inj equal
  exact Prod.ext (Key.str.inj key) value

theorem Plain.stabilize {v : Json} (plain : Plain v) : Plain v.stabilize := by
  induction plain with
  | null => exact .null
  | bool b => exact .bool b
  | int i => exact .int i
  | str s => exact .str s
  | @arr items each ih =>
    by_cases only : OnlyTexts items
    · obtain ⟨texts, rfl⟩ := texts_of_only_texts only
      rw [← strings, stabilize_texts]
      refine .arr fun v member => ?_
      obtain ⟨s, -, rfl⟩ := List.mem_map.mp member
      exact .str s
    · rw [stabilize_other only]
      refine .arr fun v member => ?_
      obtain ⟨w, here, rfl⟩ := List.mem_map.mp member
      exact ih w here
  | @obj members distinct each ih =>
    rw [← record, stabilize_record]
    refine .obj (Text.nodup_of_ascending (ordered_ascends distinct)) ?_
    intro f member
    obtain ⟨w, here, -, same⟩ := mem_ordered_iff.mp member
    exact same ▸ ih _ here

end ContractGraph.Json
