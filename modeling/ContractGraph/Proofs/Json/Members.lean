import ContractGraph.Json.Reading

/-!
# Members of records

How the readings of values see a record, an array and an object that were put together as such: a
record has what stands under a name, and neither an array nor an object is replaced for being empty.
-/

namespace ContractGraph

set_option autoImplicit false

theorem Fields.get_record (members : List (String × Json)) (name : String) :
    Fields.get? (members.map fun f => (.str f.1, f.2)) name = members.lookup name := by
  induction members with
  | nil => rfl
  | cons f rest ih =>
    simp only [get?, List.map_cons, List.lookup_cons, Key.str_beq_str] at ih ⊢
    rw [ih]
    rfl

namespace Json

/-- A member is read off an object. -/
theorem object_of_member {v w : Json} {name : String} (read : v.member name = .ok w) :
    ∃ fields : Fields, v = .obj fields ∧ w = fields.getD name := by
  cases v with
  | obj fields => exact ⟨fields, rfl, (Except.ok.inj read).symm⟩
  | _ => cases read

theorem fields_for_record (members : List (String × Json)) (reading : String) :
    (record members).fieldsFor reading = .ok (members.map fun f => (.str f.1, f.2)) := rfl

theorem required_member_record {members : List (String × Json)} {name : String} {v : Json}
    (found : members.lookup name = some v) : (record members).requiredMember name = .ok v := by
  rw [record, requiredMember, Fields.get_record, found]

@[simp] theorem elements_or_none_arr (items : List Json) :
    (Json.arr items).elementsOrNone = .ok items := by
  cases items <;> rfl

theorem or_else_obj (fields : Fields) : (Json.obj fields).orElse (.obj []) = .obj fields := by
  cases fields <;> rfl

end Json

end ContractGraph
