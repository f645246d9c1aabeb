import ContractGraph.Json.Reading
import Mathlib.Algebra.Order.Field.Rat
import Mathlib.Data.Int.Cast.Lemmas
import Mathlib.Data.List.Nodup
import Mathlib.Data.List.Perm.Subperm

/-!
# Equality of values

Two keys are the same when they mean the same: nothing, not a number, a text, or one place on the
extended line. So sameness of keys is an equivalence, and sameness of values, which looks every
member of one object up in the other, does not depend on the order of the two values, as long as no
object holds a key twice. Whatever is read from such a value is such a value again.
-/

namespace ContractGraph

set_option autoImplicit false

namespace LinePoint

/-- A place on the extended line. -/
inductive Place where
  | bottom
  | number (value : ℚ)
  | top

def place : LinePoint → Place
  | .bottom => .bottom
  | .dyadic a e => .number (a * 2 ^ e)
  | .top => .top

theorem two_to_scaled (a e g : Int) (below : g ≤ e) :
    ((a * (twoTo (e - g).toNat : Int) : Int) : ℚ) = a * 2 ^ e * 2 ^ (-g) := by
  have exponent : ((e - g).toNat : Int) = e - g := by omega
  have power : ((twoTo (e - g).toNat : Int) : ℚ) = 2 ^ (e - g) := by
    calc ((twoTo (e - g).toNat : Int) : ℚ) = 2 ^ (e - g).toNat := by simp [twoTo]
      _ = 2 ^ ((e - g).toNat : Int) := (zpow_natCast 2 _).symm
      _ = 2 ^ (e - g) := by rw [exponent]
  rw [Int.cast_mul, power, sub_eq_add_neg, zpow_add₀ two_ne_zero, mul_assoc]

theorem order_eq_iff (p q : LinePoint) : p.order q = .eq ↔ p.place = q.place := by
  cases p with
  | bottom => cases q <;> simp [order, place]
  | top => cases q <;> simp [order, place]
  | dyadic a e =>
    cases q with
    | bottom => simp [order, place]
    | top => simp [order, place]
    | dyadic b f =>
      have scale : (2 : ℚ) ^ (-min e f) ≠ 0 := zpow_ne_zero _ two_ne_zero
      simp only [order, place, Int.compare_eq_eq, Place.number.injEq]
      rw [← Int.cast_inj (α := ℚ), two_to_scaled a e _ (min_le_left e f),
        two_to_scaled b f _ (min_le_right e f), mul_left_inj' scale]

end LinePoint

namespace Key

/-- What a key is compared by: its place, or the key itself when it is no number. -/
inductive Meaning where
  | place (place : LinePoint.Place)
  | itself (key : Key)

def meaning (k : Key) : Meaning :=
  match k.point? with
  | some p => .place p.place
  | none => .itself k

/-- Null, a text and not a number. -/
theorem without_point {k : Key} (none : k.point? = none) :
    k = .null ∨ (∃ s, k = .str s) ∨ k = .float .nan := by
  cases k with
  | null => exact .inl rfl
  | str s => exact .inr (.inl ⟨s, rfl⟩)
  | float f =>
    rcases f with _ | negative | ⟨negative, mantissa, exponent⟩
    · exact .inr (.inr rfl)
    · cases negative <;> cases none
    · cases negative <;> cases none
  | _ => cases none

theorem same_points {k l : Key} {p q : LinePoint} (first : k.point? = some p)
    (second : l.point? = some q) : (k == l) = (p.order q == .eq) := by
  change same k l = _
  unfold same
  split
  · cases first
  · cases first
  · cases first
  · simp only [first, second]

theorem same_point_other {k l : Key} {p : LinePoint} (first : k.point? = some p)
    (second : l.point? = none) : (k == l) = false := by
  change same k l = false
  unfold same
  split
  · cases first
  · cases first
  · cases first
  · rw [first, second]

theorem same_other_point {k l : Key} {p : LinePoint} (first : k.point? = none)
    (second : l.point? = some p) : (k == l) = false := by
  change same k l = false
  unfold same
  split
  · cases second
  · cases second
  · cases second
  · rw [first]

theorem same_others {k l : Key} (first : k.point? = none) (second : l.point? = none) :
    (k == l) = true ↔ k = l := by
  change same k l = true ↔ k = l
  rcases without_point first with rfl | ⟨s, rfl⟩ | rfl
  all_goals
    rcases without_point second with rfl | ⟨t, rfl⟩ | rfl
    all_goals simp [same, point?, LinePoint.ofBinary64?]

theorem same_iff (k l : Key) : (k == l) = true ↔ k.meaning = l.meaning := by
  cases first : k.point? with
  | some p =>
    cases second : l.point? with
    | some q => simp [meaning, first, second, same_points first second, LinePoint.order_eq_iff]
    | none => simp [meaning, first, second, same_point_other first second]
  | none =>
    cases second : l.point? with
    | some q => simp [meaning, first, second, same_other_point first second]
    | none => simp [meaning, first, second, same_others first second]

theorem same_symm (k l : Key) : (k == l) = (l == k) := by
  rw [Bool.eq_iff_iff, same_iff, same_iff, eq_comm]

instance : EquivBEq Key where
  rfl := (same_iff _ _).mpr rfl
  symm first := (same_iff _ _).mpr ((same_iff _ _).mp first).symm
  trans first second :=
    (same_iff _ _).mpr (((same_iff _ _).mp first).trans ((same_iff _ _).mp second))

/-- A number is truthy unless its place is zero. -/
theorem truthy_of_point {k : Key} {p : LinePoint} (there : k.point? = some p) :
    (Json.ofKey k).truthy = false ↔ p.place = .number 0 := by
  have power : ∀ e : Int, (2 : ℚ) ^ e ≠ 0 := fun e => zpow_ne_zero e two_ne_zero
  cases k with
  | null => cases there
  | str s => cases there
  | bool b =>
    cases there
    cases b <;> simp [Json.ofKey, Json.truthy, LinePoint.ofInt, LinePoint.place]
  | int i =>
    cases there
    simp [Json.ofKey, Json.truthy, LinePoint.ofInt, LinePoint.place]
  | float f =>
    rcases f with _ | negative | ⟨negative, mantissa, exponent⟩
    · cases there
    · cases negative <;> cases there <;>
        simp [Json.ofKey, Json.truthy, Binary64.isZero, LinePoint.place]
    · have zero : (Binary64.finite negative mantissa exponent).isZero = true ↔ mantissa = 0 := by
        cases mantissa <;> simp [Binary64.isZero]
      cases negative <;> cases there <;> simp [Json.ofKey, Json.truthy, zero, LinePoint.place, power]

theorem truthy_of_same {k l : Key} (same : (k == l) = true) :
    (Json.ofKey k).truthy = (Json.ofKey l).truthy := by
  have meaning := (same_iff k l).mp same
  rw [Key.meaning, Key.meaning] at meaning
  cases first : k.point? with
  | some p =>
    cases second : l.point? with
    | some q =>
      rw [first, second] at meaning
      have place := Meaning.place.inj meaning
      have equal := (truthy_of_point first).trans (place ▸ (truthy_of_point second).symm)
      rw [← Bool.not_inj_iff, Bool.eq_iff_iff, Bool.not_eq_true', Bool.not_eq_true']
      exact equal
    | none =>
      rw [first, second] at meaning
      cases meaning
  | none =>
    cases second : l.point? with
    | some q =>
      rw [first, second] at meaning
      cases meaning
    | none =>
      rw [first, second] at meaning
      exact congrArg (fun key => (Json.ofKey key).truthy) (Meaning.itself.inj meaning)

end Key

/-- No key is there twice. -/
def Fields.Apart (fields : Fields) : Prop := (fields.map fun f => f.1.meaning).Nodup

namespace Fields

variable {fields : Fields} {key : Key} {v : Json}

theorem mem_of_lookup (found : fields.lookup key = some v) :
    ∃ k, (k, v) ∈ fields ∧ (key == k) = true := by
  induction fields with
  | nil => cases found
  | cons f rest ih =>
    rw [List.lookup_cons] at found
    cases here : key == f.1 with
    | true =>
      simp only [here] at found
      cases found
      exact ⟨f.1, List.mem_cons_self, here⟩
    | false =>
      simp only [here] at found
      obtain ⟨k, member, same⟩ := ih found
      exact ⟨k, List.mem_cons_of_mem _ member, same⟩

theorem Apart.lookup {k : Key} (apart : Apart fields) (member : (k, v) ∈ fields)
    (same : key.meaning = k.meaning) : fields.lookup key = some v := by
  induction fields with
  | nil => cases member
  | cons f rest ih =>
    have parts := List.nodup_cons.mp apart
    rw [List.lookup_cons]
    rcases List.mem_cons.mp member with rfl | later
    · rw [(Key.same_iff key k).mpr same]
    · have other : (key == f.1) = false := by
        rw [← Bool.not_eq_true, Key.same_iff, same]
        intro equal
        exact parts.1 (List.mem_map.mpr ⟨(k, v), later, equal⟩)
      rw [other]
      exact ih parts.2 later

end Fields

namespace Json

/-- No object holds a key twice. -/
inductive KeysApart : Json → Prop
  | null : KeysApart .null
  | bool (b : Bool) : KeysApart (.bool b)
  | int (i : Int) : KeysApart (.int i)
  | float (f : Binary64) : KeysApart (.float f)
  | str (s : String) : KeysApart (.str s)
  | arr {items : List Json} (each : ∀ v ∈ items, KeysApart v) : KeysApart (.arr items)
  | obj {fields : Fields} (apart : fields.Apart) (each : ∀ f ∈ fields, KeysApart f.2) :
      KeysApart (.obj fields)

theorem fields_apart_of_documents {fields : Fields} (document : fieldsAreDocuments fields = true) :
    fields.Apart := by
  induction fields with
  | nil => exact List.nodup_nil
  | cons f rest ih =>
    obtain ⟨key, v⟩ := f
    cases key with
    | str name =>
      simp only [fieldsAreDocuments, Bool.and_eq_true, Bool.not_eq_true', List.any_eq_false] at document
      refine List.nodup_cons.mpr ⟨?_, ih document.2⟩
      intro again
      obtain ⟨g, there, equal⟩ := List.mem_map.mp again
      exact document.1.1 g there ((Key.same_iff _ _).mpr equal)
    | _ => cases document

mutual

theorem keys_apart_of_document : (v : Json) → v.IsDocument → v.KeysApart
  | .null, _ => .null
  | .bool b, _ => .bool b
  | .int i, _ => .int i
  | .float f, _ => .float f
  | .str s, _ => .str s
  | .arr items, document => .arr (items_apart_of_documents items document)
  | .obj fields, document =>
    .obj (fields_apart_of_documents document) (values_apart_of_documents fields document)

theorem items_apart_of_documents :
    (items : List Json) → areDocuments items = true → ∀ v ∈ items, v.KeysApart
  | [], _ => by simp
  | v :: rest, documents => by
    rw [areDocuments, Bool.and_eq_true] at documents
    exact List.forall_mem_cons.mpr
      ⟨keys_apart_of_document v documents.1, items_apart_of_documents rest documents.2⟩

theorem values_apart_of_documents :
    (fields : List (Key × Json)) → fieldsAreDocuments fields = true → ∀ f ∈ fields, f.2.KeysApart
  | [], _ => by simp
  | (.str name, v) :: rest, documents => by
    rw [fieldsAreDocuments, Bool.and_eq_true, Bool.and_eq_true] at documents
    exact List.forall_mem_cons.mpr
      ⟨keys_apart_of_document v documents.1.2, values_apart_of_documents rest documents.2⟩

end

theorem fields_within_iff (as bs : Fields) :
    fieldsWithin as bs = true ↔
      ∀ f ∈ as, ∃ b, List.lookup f.1 bs = some b ∧ same f.2 b = true := by
  induction as with
  | nil => simp [fieldsWithin]
  | cons f rest ih =>
    rw [fieldsWithin, Bool.and_eq_true, ih, List.forall_mem_cons]
    cases List.lookup f.1 bs <;> simp

/-- Of two objects of one size, all keys of the first are in the second only if it is so the other
way round. -/
theorem keys_met {as bs : Fields} (apart : as.Apart) (size : as.length = bs.length)
    (within : fieldsWithin as bs = true) {g : Key × Json} (member : g ∈ bs) :
    ∃ f ∈ as, f.1.meaning = g.1.meaning := by
  have met : (as.map fun f => f.1.meaning) ⊆ bs.map fun f => f.1.meaning := by
    intro m here
    obtain ⟨f, inside, rfl⟩ := List.mem_map.mp here
    obtain ⟨b, found, -⟩ := (fields_within_iff as bs).mp within f inside
    obtain ⟨k, there, equal⟩ := Fields.mem_of_lookup found
    exact List.mem_map.mpr ⟨(k, b), there, ((Key.same_iff _ _).mp equal).symm⟩
  have perm := (List.subperm_of_subset apart met).perm_of_length_le (by simp [size])
  have back := perm.mem_iff.mpr (List.mem_map_of_mem (f := fun f => f.1.meaning) member)
  exact List.mem_map.mp back

theorem same_items_back {as bs : List Json} (first : ∀ v ∈ as, ∀ w ∈ bs, same v w = true →
    same w v = true) (equal : sameItems as bs = true) : sameItems bs as = true := by
  induction as generalizing bs with
  | nil =>
    cases bs with
    | nil => rfl
    | cons b bs => cases equal
  | cons a as ih =>
    cases bs with
    | nil => cases equal
    | cons b bs =>
      rw [sameItems, Bool.and_eq_true] at equal ⊢
      refine ⟨first a List.mem_cons_self b List.mem_cons_self equal.1, ih ?_ equal.2⟩
      intro v inside w there
      exact first v (List.mem_cons_of_mem a inside) w (List.mem_cons_of_mem b there)

theorem same_back {a b : Json} (first : a.KeysApart) (second : b.KeysApart)
    (equal : same a b = true) : same b a = true := by
  induction first generalizing b with
  | arr each ih =>
    cases second with
    | arr each' =>
      rw [same] at equal ⊢
      exact same_items_back (fun v inside w there => ih v inside (each' w there)) equal
    | _ => simp [same, toKey?] at equal
  | @obj as apart each ih =>
    cases second with
    | @obj bs apart' each' =>
      rw [same, Bool.and_eq_true, beq_iff_eq] at equal ⊢
      refine ⟨equal.1.symm, (fields_within_iff bs as).mpr ?_⟩
      intro g there
      obtain ⟨f, inside, meets⟩ := keys_met apart equal.1 equal.2 there
      obtain ⟨b, found, alike⟩ := (fields_within_iff as bs).mp equal.2 f inside
      rw [apart'.lookup there meets] at found
      cases found
      exact ⟨f.2, apart.lookup inside meets.symm, ih f inside (each' g there) alike⟩
    | _ => simp [same, toKey?] at equal
  | _ =>
    cases second with
    | arr each' => simp [same, toKey?] at equal
    | obj apart' each' => simp [same, toKey?] at equal
    | _ =>
      simp only [same, toKey?] at equal ⊢
      rw [Key.same_symm]
      exact equal

theorem same_symm {a b : Json} (first : a.KeysApart) (second : b.KeysApart) :
    same a b = same b a := by
  rw [Bool.eq_iff_iff]
  exact ⟨same_back first second, same_back second first⟩

namespace KeysApart

variable {v w : Json} {name : String}

theorem get {fields : Fields} (each : ∀ f ∈ fields, KeysApart f.2) (name : String) {w : Json}
    (found : fields.get? name = some w) : w.KeysApart := by
  obtain ⟨k, member, -⟩ := Fields.mem_of_lookup found
  exact each _ member

theorem get_or_null {fields : Fields} (each : ∀ f ∈ fields, KeysApart f.2) (name : String) :
    (fields.getD name).KeysApart := by
  rw [Fields.getD]
  cases found : fields.get? name with
  | none => exact .null
  | some w => exact get each name found

theorem member (apart : v.KeysApart) (read : v.member name = .ok w) : w.KeysApart := by
  cases apart with
  | obj keys each =>
    cases read
    exact get_or_null each name
  | _ => cases read

theorem renamed_member {older : String} (apart : v.KeysApart)
    (read : v.renamedMember name older = .ok w) : w.KeysApart := by
  cases apart with
  | @obj fields keys each =>
    cases read
    change ((fields.get? name).getD (fields.getD older)).KeysApart
    cases found : fields.get? name with
    | none => exact get_or_null each older
    | some w => exact get each name found
  | _ => cases read

theorem or_else (apart : v.KeysApart) (default : w.KeysApart) : (v.orElse w).KeysApart := by
  rw [orElse]
  split
  · exact apart
  · exact default

theorem empty : (Json.obj []).KeysApart := .obj List.nodup_nil (by simp)

theorem elements {items : List Json} (apart : v.KeysApart) (read : v.elements = .ok items) :
    ∀ w ∈ items, w.KeysApart := by
  cases apart with
  | arr each =>
    cases read
    exact each
  | obj keys each =>
    cases read
    intro w member
    obtain ⟨f, -, rfl⟩ := List.mem_map.mp member
    cases f.1 <;> constructor
  | str s =>
    cases read
    intro w member
    obtain ⟨c, -, rfl⟩ := List.mem_map.mp member
    exact .str _
  | _ => cases read

theorem elements_or_none {items : List Json} (apart : v.KeysApart)
    (read : v.elementsOrNone = .ok items) : ∀ w ∈ items, w.KeysApart := by
  rw [elementsOrNone] at read
  split at read
  · exact apart.elements read
  · cases read
    simp

end KeysApart

end Json

end ContractGraph
