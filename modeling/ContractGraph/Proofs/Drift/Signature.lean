import ContractGraph.Drift.Snapshot
import ContractGraph.Proofs.Contract.Document

/-!
# Signatures of contract documents

A drift signature is taken from the document of a contract and not from the contract. The hash and the
kind of exports are the same either way. The imports and the hooks are the same exactly for documents
whose composition is an object, if it is anything, and lists texts under both names, if it lists
anything. For any other document the signature has values that the contract does not have, or there is
no signature at all.
-/

namespace ContractGraph

set_option autoImplicit false

namespace Json

/-- Nothing, or an array of texts only. -/
def ListsTexts (v : Json) : Prop := v.truthy = false ∨ ∃ texts, v = .strings texts

theorem item_texts_of_nothing {v : Json} (nothing : v.truthy = false) : v.itemTexts = [] := by
  cases v with
  | arr items =>
    cases items with
    | nil => rfl
    | cons v rest => cases nothing
  | _ => rfl

/-- The elements of a value are the texts of its items exactly when it lists nothing else. -/
theorem elements_are_texts_iff (v : Json) :
    v.elementsOrNone = .ok (v.itemTexts.map .str) ↔ v.ListsTexts := by
  constructor
  · intro same
    by_cases there : v.truthy = true
    · rw [elementsOrNone, if_pos there] at same
      cases v with
      | arr items =>
        have texts : items = (items.map text).map .str := Except.ok.inj same
        exact .inr ⟨items.map text, congrArg Json.arr texts⟩
      | obj fields =>
        have none : fields = [] := List.map_eq_nil_iff.mp (Except.ok.inj same)
        rw [none] at there
        cases there
      | str s =>
        have none : s = "" := by simpa [elements, itemTexts] using same
        rw [none] at there
        cases there
      | _ => cases same
    · exact .inl (by simpa using there)
  · intro lists
    rcases lists with nothing | ⟨texts, rfl⟩
    · rw [elementsOrNone, nothing, item_texts_of_nothing nothing]
      rfl
    · rw [item_texts_strings]
      exact elements_or_none_arr _

theorem member_obj (fields : Fields) (name : String) :
    (Json.obj fields).member name = .ok (fields.getD name) := rfl

theorem renamed_member_obj (fields : Fields) (newer older : String) :
    (Json.obj fields).renamedMember newer older = .ok (fields.spelled newer older) := rfl

/-- Nothing, or an object. -/
def IsPart (v : Json) : Prop := v.truthy = false ∨ v.shape = .obj

theorem member_of_part {v : Json} (part : v.IsPart) (name : String) :
    (v.orElse (.obj [])).member name = .ok (v.fieldsOrNone.getD name) := by
  cases v with
  | obj fields =>
    rw [or_else_obj]
    rfl
  | _ =>
    rcases part with nothing | object
    · rw [orElse, nothing]
      rfl
    · cases object

theorem member_of_other {v : Json} (other : ¬ v.IsPart) (name : String) :
    (v.orElse (.obj [])).member name = .error (.noAttribute v.shape "get") := by
  simp only [IsPart, not_or, Bool.not_eq_false] at other
  rw [orElse, if_pos other.1]
  cases v with
  | obj fields => exact absurd rfl other.2
  | _ => rfl

theorem part_of_member {v w : Json} {name : String}
    (read : (v.orElse (.obj [])).member name = .ok w) :
    v.IsPart ∧ w = v.fieldsOrNone.getD name := by
  by_cases part : v.IsPart
  · rw [member_of_part part] at read
    exact ⟨part, (Except.ok.inj read).symm⟩
  · rw [member_of_other part] at read
    cases read

theorem or_else_of_part {v : Json} (part : v.IsPart) :
    v.orElse (.obj []) = .obj v.fieldsOrNone := by
  cases v with
  | obj fields => exact or_else_obj fields
  | _ =>
    rcases part with nothing | object
    · rw [orElse, nothing]
      rfl
    · cases object

end Json

namespace DriftSignature

open Contract (ReadFrom)

/-- The signature of a document is the reduced view of the contract that is read from it. -/
structure Agrees (s : DriftSignature) (c : Contract) : Prop where
  semantic_hash : s.semanticHash = c.semanticHash
  imports : s.imports = c.composition.imports.map .str
  hooks : s.hooks = c.composition.hooks.map .str
  export_kind : s.exportKind = c.exports.kind

variable {fields : Fields} {c : Contract}

theorem of_document_part (r : c.ReadFrom fields)
    (part : (fields.spelled "composition" "version").IsPart) :
    ofDocument (.obj fields) = do
      let v := (fields.spelled "composition" "version").fieldsOrNone
      let imports ← (Fields.getD v "imports").elementsOrNone
      let hooks ← (Fields.getD v "hooks").elementsOrNone
      return ⟨c.semanticHash, imports, hooks, c.exports.kind⟩ := by
  simp only [ofDocument, Json.renamed_member_obj, Json.member_obj, bind, Except.bind,
    Json.member_of_part part, r.semantic_hash, r.exports]

theorem of_document_other
    (other : ¬ (fields.spelled "composition" "version").IsPart) :
    ofDocument (.obj fields) =
      .error (.noAttribute (fields.spelled "composition" "version").shape "get") := by
  simp only [ofDocument, Json.renamed_member_obj, Json.member_obj, bind, Except.bind,
    Json.member_of_other other]

/-- What a signature holds that was taken from a document. -/
theorem of_document_parts (r : c.ReadFrom fields) {s : DriftSignature}
    (taken : ofDocument (.obj fields) = .ok s) :
    (fields.spelled "composition" "version").IsPart ∧
      ((fields.spelled "composition" "version").fieldsOrNone.getD "imports").elementsOrNone =
        .ok s.imports ∧
      ((fields.spelled "composition" "version").fieldsOrNone.getD "hooks").elementsOrNone =
        .ok s.hooks ∧
      s.semanticHash = c.semanticHash ∧ s.exportKind = c.exports.kind := by
  by_cases part : (fields.spelled "composition" "version").IsPart
  · rw [of_document_part r part] at taken
    obtain ⟨imports, first, taken⟩ := ok_of_bind taken
    obtain ⟨hooks, second, taken⟩ := ok_of_bind taken
    cases taken
    exact ⟨part, first, second, rfl, rfl⟩
  · rw [of_document_other part] at taken
    cases taken

/-- What a document has to be for its signature to agree with its contract. -/
def HasPlainNames (fields : Fields) : Prop :=
  (fields.spelled "composition" "version").IsPart ∧ ∀ name ∈ ["imports", "hooks"],
    ((fields.spelled "composition" "version").fieldsOrNone.getD name).ListsTexts

theorem agrees_of_plain_names (r : c.ReadFrom fields) (plain : HasPlainNames fields) :
    ∃ s, ofDocument (.obj fields) = .ok s ∧ s.Agrees c := by
  obtain ⟨part, names⟩ := plain
  simp only [List.forall_mem_cons] at names
  have imports := (Json.elements_are_texts_iff _).mpr names.1
  have hooks := (Json.elements_are_texts_iff _).mpr names.2.1
  rw [of_document_part r part]
  simp only [imports, hooks, bind, Except.bind]
  exact ⟨_, rfl, rfl, by rw [r.composition]; rfl, by rw [r.composition]; rfl, rfl⟩

theorem plain_names_of_agrees (r : c.ReadFrom fields) {s : DriftSignature}
    (taken : ofDocument (.obj fields) = .ok s) (agrees : s.Agrees c) : HasPlainNames fields := by
  obtain ⟨part, imports, hooks, -⟩ := of_document_parts r taken
  rw [agrees.imports, r.composition] at imports
  rw [agrees.hooks, r.composition] at hooks
  refine ⟨part, ?_⟩
  simp only [List.forall_mem_cons]
  exact ⟨(Json.elements_are_texts_iff _).mp imports, (Json.elements_are_texts_iff _).mp hooks,
    by simp⟩

/-- The signature of a document from which a contract is read has the hash and the kind of exports of
the contract. It has its imports and hooks as well, and is there at all, exactly when the composition
of the document is an object that lists texts under both names; nothing stands for an empty object and
for an empty list. A composition of any other shape has no signature. -/
theorem agrees_iff {d : Json} (read : Contract.ofDocument d = .ok c) :
    ∃ fields : Fields, d = .obj fields ∧
      (∀ s, ofDocument d = .ok s →
        s.semanticHash = c.semanticHash ∧ s.exportKind = c.exports.kind) ∧
      ((∃ s, ofDocument d = .ok s ∧ s.Agrees c) ↔ HasPlainNames fields) ∧
      (¬ (fields.spelled "composition" "version").IsPart → ofDocument d =
        .error (.noAttribute (fields.spelled "composition" "version").shape "get")) := by
  obtain ⟨fields, rfl, r⟩ := Contract.of_document_iff.mp read
  refine ⟨fields, rfl, ?_, ⟨?_, agrees_of_plain_names r⟩, of_document_other⟩
  · intro s taken
    obtain ⟨-, -, -, same⟩ := of_document_parts r taken
    exact same
  · rintro ⟨s, taken, agrees⟩
    exact plain_names_of_agrees r taken agrees

/-- A composition under the older name that lists hooks and nothing else. -/
def hooksOnly : Json := .record [
  ("entryId", .str "a.tsx"), ("version", .record [("hooks", .strings ["useState"])])]

theorem agrees_iff_of_hooks_only :
    ∃ c, Contract.ofDocument hooksOnly = .ok c ∧ c.composition.hooks = ["useState"] ∧
      ∃ s, ofDocument hooksOnly = .ok s ∧ s.Agrees c := by
  have hooks : (Contract.ofDocument hooksOnly).map (·.composition.hooks) = .ok ["useState"] := by
    decide +kernel
  obtain ⟨c, read, listed⟩ := ok_of_map hooks
  obtain ⟨fields, same, -, agree, -⟩ := agrees_iff read
  cases same
  refine ⟨c, read, listed, agree.mpr ⟨.inr rfl, ?_⟩⟩
  simp only [List.forall_mem_cons]
  exact ⟨.inl rfl, .inr ⟨["useState"], rfl⟩, by simp⟩

/-- A composition that is an array. -/
def arrayComposition : Json :=
  .record [("type", .str "UIFContract"), ("entryId", .str "a.tsx"), ("composition", .strings ["x"])]

theorem array_has_no_signature :
    ∃ c, Contract.ofDocument arrayComposition = .ok c ∧ c.composition = {} ∧
      ofDocument arrayComposition = .error (.noAttribute .arr "get") ∧
      ¬ ∃ s, ofDocument arrayComposition = .ok s ∧ s.Agrees c := by
  have fails : ofDocument arrayComposition = .error (.noAttribute .arr "get") := rfl
  refine ⟨_, rfl, rfl, fails, ?_⟩
  rintro ⟨s, taken, -⟩
  rw [fails] at taken
  cases taken

end DriftSignature

end ContractGraph
