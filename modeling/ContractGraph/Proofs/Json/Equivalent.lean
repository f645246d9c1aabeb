import ContractGraph.Proofs.Json.Digits
import ContractGraph.Proofs.Json.ReadBack
import Mathlib.Data.List.Nodup

/-!
# Values with one stable text

Two plain values are equivalent when they differ in nothing but the order of members, the order of
arrays of texts, and members that are null. The stable text tells exactly the values apart that are
not equivalent: putting a value in order picks one value of each class, and dense text is read back.
-/

namespace ContractGraph.Json

set_option autoImplicit false

/-- The members that are not null. -/
def filled (fields : Fields) : Fields := fields.filter fun f => !isNull f.2

inductive Equivalent : Json → Json → Prop
  | null : Equivalent .null .null
  | bool (b : Bool) : Equivalent (.bool b) (.bool b)
  | int (i : Int) : Equivalent (.int i) (.int i)
  | str (s : String) : Equivalent (.str s) (.str s)
  | texts {as bs : List String} (perm : as.Perm bs) : Equivalent (strings as) (strings bs)
  | items {as bs : List Json} (other : ¬ (OnlyTexts as ∧ OnlyTexts bs))
      (length : as.length = bs.length) (each : ∀ p ∈ as.zip bs, Equivalent p.1 p.2) :
      Equivalent (.arr as) (.arr bs)
  | members {as bs : Fields} (keys : ∀ key, key ∈ (filled as).keys ↔ key ∈ (filled bs).keys)
      (each : ∀ key v w, (key, v) ∈ filled as → (key, w) ∈ filled bs → Equivalent v w) :
      Equivalent (.obj as) (.obj bs)

theorem map_eq_iff_zip {α β : Type} {f : α → β} {as bs : List α} :
    as.map f = bs.map f ↔ as.length = bs.length ∧ ∀ p ∈ as.zip bs, f p.1 = f p.2 := by
  induction as generalizing bs with
  | nil => cases bs <;> simp
  | cons a as ih =>
    rcases bs with _ | ⟨b, bs⟩
    · simp
    · simp only [List.map_cons, List.cons.injEq, ih, List.length_cons, List.zip_cons_cons,
        List.forall_mem_cons, Nat.add_right_cancel_iff]
      tauto

theorem mem_filled_iff {members : List (String × Json)} {key : String} {v : Json} :
    (Key.str key, v) ∈ filled (members.map fun f => (.str f.1, f.2)) ↔
      (key, v) ∈ members ∧ v.isNull = false := by
  simp [filled]

theorem key_of_filled {members : List (String × Json)} {key : Key}
    (member : key ∈ (filled (members.map fun f => (.str f.1, f.2))).keys) :
    ∃ name v, key = .str name ∧ (name, v) ∈ members ∧ v.isNull = false := by
  obtain ⟨f, here, rfl⟩ := List.mem_map.mp member
  obtain ⟨listed, kept⟩ := List.mem_filter.mp here
  obtain ⟨g, there, rfl⟩ := List.mem_map.mp listed
  exact ⟨g.1, g.2, rfl, there, by simpa using kept⟩

theorem key_filled {members : List (String × Json)} {key : String} {v : Json}
    (member : (key, v) ∈ members) (kept : v.isNull = false) :
    .str key ∈ (filled (members.map fun f => (.str f.1, f.2))).keys :=
  List.mem_map.mpr ⟨(.str key, v), mem_filled_iff.mpr ⟨member, kept⟩, rfl⟩

theorem Equivalent.stabilize_eq {a b : Json} (same : Equivalent a b) (first : Plain a)
    (second : Plain b) : a.stabilize = b.stabilize := by
  induction same with
  | null => rfl
  | bool b => rfl
  | int i => rfl
  | str s => rfl
  | @texts as bs perm =>
    rw [stabilize_texts, stabilize_texts, Text.sorted_eq_iff.mpr perm]
  | @items as bs other length each ih =>
    cases first with
    | arr plain =>
    cases second with
    | arr plain' =>
    have mapped : as.map stabilize = bs.map stabilize := by
      refine map_eq_iff_zip.mpr ⟨length, ?_⟩
      intro p member
      obtain ⟨left, right⟩ := List.of_mem_zip member
      exact ih p member (plain _ left) (plain' _ right)
    have both : OnlyTexts as ↔ OnlyTexts bs := by rw [only_texts_iff, only_texts_iff, mapped]
    have mixed : ¬ OnlyTexts as := fun only => other ⟨only, both.mp only⟩
    rw [stabilize_other mixed, stabilize_other (both.not.mp mixed), mapped]
  | @members as bs keys each ih =>
    cases first with
    | @obj as distinct plain =>
    cases second with
    | @obj bs apart plain' =>
    change (record as).stabilize = (record bs).stabilize
    rw [stabilize_record, stabilize_record, ordered_unique distinct apart]
    intro key v
    rw [mem_ordered_iff, mem_ordered_iff]
    constructor
    · intro given
      rcases given with ⟨w, member, kept, rfl⟩
      obtain ⟨name, w', same, there, kept'⟩ :=
        key_of_filled ((keys (.str key)).mp (key_filled member kept))
      cases same
      have equal := ih _ w w' (mem_filled_iff.mpr ⟨member, kept⟩) (mem_filled_iff.mpr ⟨there, kept'⟩)
        (plain _ member) (plain' _ there)
      exact ⟨w', there, kept', equal.symm⟩
    · intro given
      rcases given with ⟨w, member, kept, rfl⟩
      obtain ⟨name, w', same, there, kept'⟩ :=
        key_of_filled ((keys (.str key)).mpr (key_filled member kept))
      cases same
      have equal := ih _ w' w (mem_filled_iff.mpr ⟨there, kept'⟩) (mem_filled_iff.mpr ⟨member, kept⟩)
        (plain _ there) (plain' _ member)
      exact ⟨w', there, kept', equal⟩

theorem equivalent_of_arrays {as bs : List Json}
    (each : ∀ v ∈ as, ∀ w ∈ bs, v.stabilize = w.stabilize → Equivalent v w)
    (same : (arr as).stabilize = (arr bs).stabilize) : Equivalent (.arr as) (.arr bs) := by
  have both := only_texts_stable same
  by_cases only : OnlyTexts as
  · obtain ⟨texts, rfl⟩ := texts_of_only_texts only
    obtain ⟨others, rfl⟩ := texts_of_only_texts (both.mp only)
    have sorted : strings (Text.sorted texts) = strings (Text.sorted others) := by
      rw [← stabilize_texts, ← stabilize_texts]
      exact same
    have equal : Text.sorted texts = Text.sorted others :=
      List.map_injective_iff.mpr (fun _ _ => Json.str.inj) (Json.arr.inj sorted)
    exact .texts (Text.sorted_eq_iff.mp equal)
  · rw [stabilize_other only, stabilize_other (both.not.mp only)] at same
    obtain ⟨length, places⟩ := map_eq_iff_zip.mp (Json.arr.inj same)
    refine .items (fun given => only given.1) length ?_
    intro p member
    obtain ⟨left, right⟩ := List.of_mem_zip member
    exact each p.1 left p.2 right (places p member)

theorem equivalent_of_objects {as bs : List (String × Json)} (apart : (bs.map (·.1)).Nodup)
    (each : ∀ f ∈ as, ∀ g ∈ bs, f.2.stabilize = g.2.stabilize → Equivalent f.2 g.2)
    (same : (record as).stabilize = (record bs).stabilize) :
    Equivalent (record as) (record bs) := by
  rw [stabilize_record, stabilize_record] at same
  have ordered := record_inj same
  have across : ∀ key v, (key, v) ∈ as → v.isNull = false →
      ∃ w, (key, w) ∈ bs ∧ w.isNull = false ∧ w.stabilize = v.stabilize := by
    intro key v member kept
    have there := mem_ordered_iff.mpr ⟨v, member, kept, rfl⟩
    rw [ordered] at there
    exact mem_ordered_iff.mp there
  refine .members ?_ ?_
  · intro key
    constructor
    · intro member
      obtain ⟨name, v, rfl, here, kept⟩ := key_of_filled member
      obtain ⟨w, there, filled, -⟩ := across name v here kept
      exact key_filled there filled
    · intro member
      obtain ⟨name, w, rfl, here, kept⟩ := key_of_filled member
      have there := mem_ordered_iff.mpr ⟨w, here, kept, rfl⟩
      rw [← ordered] at there
      obtain ⟨v, listed, filled, -⟩ := mem_ordered_iff.mp there
      exact key_filled listed filled
  · intro key v w left right
    obtain ⟨name, v', rfl, here, kept⟩ := key_of_filled (List.mem_map_of_mem left)
    obtain ⟨listed, filled⟩ := mem_filled_iff.mp left
    obtain ⟨there, -⟩ := mem_filled_iff.mp right
    obtain ⟨w', found, -, equal⟩ := across name v listed filled
    have one : w' = w := by
      have pairs := List.inj_on_of_nodup_map apart found there rfl
      exact (Prod.mk.inj pairs).2
    subst one
    exact each _ listed _ there equal.symm

theorem equivalent_of_stabilize {a : Json} (first : Plain a) :
    ∀ {b}, Plain b → a.stabilize = b.stabilize → Equivalent a b := by
  induction first with
  | null =>
    intro b second same
    cases second <;> simp [stabilize] at same
    exact .null
  | bool x =>
    intro b second same
    cases second <;> simp [stabilize] at same
    exact same ▸ .bool x
  | int i =>
    intro b second same
    cases second <;> simp [stabilize] at same
    exact same ▸ .int i
  | str s =>
    intro b second same
    cases second <;> simp [stabilize] at same
    exact same ▸ .str s
  | @arr as each ih =>
    intro b second same
    cases second with
    | arr each' =>
      exact equivalent_of_arrays (fun v member w there => ih v member (each' w there)) same
    | _ => simp [stabilize] at same
  | @obj as distinct each ih =>
    intro b second same
    cases second with
    | obj apart each' =>
      exact equivalent_of_objects apart (fun f member g there => ih f member (each' g there)) same
    | _ => simp [stabilize] at same

/-- The stable text of a plain value exists unless the value is nested too deep or a whole number in it
has too many digits, and it tells exactly the values apart that are not equivalent. Without these limits
the same holds of the dense text of what was put in order. -/
theorem stable_texts_equal_iff {a b : Json} (first : Plain a) (second : Plain b) :
    (∀ s t, a.stableText = .ok s → b.stableText = .ok t → (s = t ↔ Equivalent a b)) ∧
      (a.stableText =
        if a.nesting ≤ maxStableNesting then
          if a.digits ≤ maxDigits then .ok a.stabilize.dense else .error .tooManyDigits
        else .error .tooDeep) ∧
      (a.stabilize.dense = b.stabilize.dense ↔ Equivalent a b) := by
  have whole : a.stabilize.dense = b.stabilize.dense ↔ Equivalent a b := by
    constructor
    · intro same
      have ordered := dense_injective first.stabilize second.stabilize same
      exact equivalent_of_stabilize first second ordered
    · intro same
      rw [same.stabilize_eq first second]
  refine ⟨?_, first.stable_text, whole⟩
  intro s t left right
  cases first.dense_of_stable_text left
  cases second.dense_of_stable_text right
  exact whole

/-- Members and texts in two orders, a null member, and an escape. -/
def extracted : Json := record [
  ("b", strings ["y", "x"]), ("a", .null), ("c", .arr [.int 1, .bool true, .str "\""])]

def reextracted : Json := record [
  ("c", .arr [.int 1, .bool true, .str "\""]), ("b", strings ["x", "y"])]

theorem stable_texts_equal_iff_of_extracted :
    Plain extracted ∧ Plain reextracted ∧
      (∃ s, extracted.stableText = .ok s ∧ reextracted.stableText = .ok s) ∧
      Equivalent extracted reextracted ∧
      Plain (.int 1) ∧ Plain (.bool true) ∧ ¬ Equivalent (.int 1) (.bool true) := by
  have texts : ∀ ss : List String, Plain (strings ss) := by
    intro ss
    refine .arr fun v member => ?_
    obtain ⟨s, -, rfl⟩ := List.mem_map.mp member
    exact .str s
  have mixed : Plain (.arr [.int 1, .bool true, .str "\""]) := by
    refine .arr fun v member => ?_
    simp only [List.mem_cons, List.not_mem_nil, or_false] at member
    rcases member with rfl | rfl | rfl
    · exact .int 1
    · exact .bool true
    · exact .str "\""
  have first : Plain extracted := by
    refine .obj (by decide) fun f member => ?_
    simp only [List.mem_cons, List.not_mem_nil, or_false] at member
    rcases member with rfl | rfl | rfl
    · exact texts _
    · exact .null
    · exact mixed
  have second : Plain reextracted := by
    refine .obj (by decide) fun f member => ?_
    simp only [List.mem_cons, List.not_mem_nil, or_false] at member
    rcases member with rfl | rfl
    · exact mixed
    · exact texts _
  have same := equivalent_of_stabilize mixed mixed rfl
  have alike : Equivalent extracted reextracted := by
    refine .members (fun key => ?_) fun key v w left right => ?_
    · change key ∈ [.str "b", .str "c"] ↔ key ∈ [.str "c", .str "b"]
      exact (List.Perm.swap _ _ _).mem_iff
    · change (key, v) ∈ [(.str "b", strings ["y", "x"]), (.str "c", _)] at left
      change (key, w) ∈ [(.str "c", _), (.str "b", strings ["x", "y"])] at right
      simp only [List.mem_cons, List.not_mem_nil, or_false, Prod.mk.injEq] at left right
      rcases left with ⟨rfl, rfl⟩ | ⟨rfl, rfl⟩
      · obtain ⟨b, -⟩ | ⟨-, rfl⟩ := right
        · exact absurd b (by decide)
        · exact .texts (.swap _ _ _)
      · obtain ⟨-, rfl⟩ | ⟨c, -⟩ := right
        · exact same
        · exact absurd c (by decide)
  obtain ⟨-, text, dense⟩ := stable_texts_equal_iff first second
  obtain ⟨-, text', -⟩ := stable_texts_equal_iff second first
  rw [if_pos (by decide +kernel), if_pos (by decide +kernel)] at text text'
  rw [← dense.mpr alike] at text'
  have apart : ¬ Equivalent (.int 1) (.bool true) := by
    rw [← (stable_texts_equal_iff (.int 1) (.bool true)).2.2]
    decide +kernel
  exact ⟨first, second, ⟨_, text, text'⟩, alike, .int 1, .bool true, apart⟩

end ContractGraph.Json
