import ContractGraph.Manifest.Basic
import ContractGraph.Proofs.Json.Members
import ContractGraph.Proofs.Outcome

/-!
# Documents of manifests

The document of a manifest gives back everything but the warnings: the components in their order with
all their fields, those included that are left out when they are null, and the buckets of the hash
index in their order.
-/

namespace ContractGraph

set_option autoImplicit false

/-- Rows that each put an entry of a table back make up the table. -/
theorem Table.fold_rows {κ α ι ε : Type} [BEq κ] {t : Table κ α} {row : κ × α → ι}
    {put : Table κ α → ι → Except ε (Table κ α)}
    (step : ∀ e ∈ t.entries, ∀ u : Table κ α, put u (row e) = .ok (u.insert e.1 e.2)) :
    (t.entries.map row).foldlM put .empty = .ok t :=
  calc (t.entries.map row).foldlM put .empty
      = t.entries.foldlM (fun u e => put u (row e)) .empty := List.foldlM_map
    _ = .ok (ofList t.entries) := fold_each_ok step .empty
    _ = .ok t := by rw [t.of_list_entries]

namespace Component

theorem lookup_hash_member (name : String) (hash : Json) :
    ((hashMember name hash).lookup name).getD .null = hash := by
  cases hash <;> simp [hashMember]

theorem lookup_other_hash {name other : String} (apart : (other == name) = false) (hash : Json) :
    (hashMember name hash).lookup other = none := by
  cases hash <;> simp [hashMember, List.lookup_cons, apart]

theorem of_value_to_value (c : Component) : ofValue c.toValue = .ok c := by
  have structures := lookup_hash_member "structureHash" c.structureHash
  have signatures := lookup_hash_member "signatureHash" c.signatureHash
  have noStructure : (hashMember "structureHash" c.structureHash).lookup "signatureHash" = none :=
    lookup_other_hash (by decide) c.structureHash
  have noSignature : (hashMember "signatureHash" c.signatureHash).lookup "structureHash" = none :=
    lookup_other_hash (by decide) c.signatureHash
  have id : c.toValue.requiredMember "entryId" = .ok c.entryId := Json.required_member_record rfl
  rw [ofValue, id]
  simp only [toValue, Json.record, Json.fieldsFor, Fields.getD, Fields.get_record, bind, Except.bind]
  simp [List.lookup_append, List.lookup_cons, structures, signatures, noStructure, noSignature,
    pure, Except.pure]

end Component

namespace HashIndex

theorem buckets_of_value_to_value (t : Table Key (List Json)) :
    bucketsOfValue (bucketsToValue t) = .ok t := by
  have fields : ((bucketsToValue t).orElse (.obj [])).fieldsFor "items" =
      .ok (t.entries.map fun e => (e.1, .arr e.2)) := by
    rw [bucketsToValue, Json.or_else_obj]
    rfl
  rw [bucketsOfValue, fields]
  exact Table.fold_rows fun _ _ _ => rfl

theorem of_value_to_value (index : HashIndex) : ofValue index.toValue = .ok index := by
  have structures : index.toValue.member "structureHash" =
      .ok (bucketsToValue index.structures) := rfl
  have signatures : index.toValue.member "signatureHash" =
      .ok (bucketsToValue index.signatures) := rfl
  simp only [ofValue, structures, signatures, buckets_of_value_to_value, bind, Except.bind]
  rfl

end HashIndex

namespace Manifest

theorem components_of_value (components : Table String Component) :
    componentsOfValue (.record (components.entries.map fun e => (e.1, e.2.toValue))) =
      .ok components := by
  have step : ∀ e ∈ components.entries, ∀ t : Table String Component,
      addComponent t (.str e.1, e.2.toValue) = .ok (t.insert e.1 e.2) := by
    intro e _ t
    rw [addComponent, Component.of_value_to_value]
    rfl
  rw [componentsOfValue, Json.record, Json.or_else_obj, List.map_map]
  exact Table.fold_rows step

theorem hash_index_of_value (index : HashIndex) :
    hashIndexOfValue index.toValue = .ok (some index) := by
  have there : index.toValue.truthy = true := rfl
  rw [hashIndexOfValue, there, HashIndex.of_value_to_value]
  rfl

/-- The document of any manifest is read as the manifest without its warnings. -/
theorem of_document_to_document (m : Manifest) :
    ofDocument m.toDocument = .ok { m with warnings := [] } := by
  rcases m with ⟨components, roots, leaves, hashIndex, generatedAt, version, warnings⟩
  have graph : (Json.record [("roots", .arr roots), ("leaves", .arr leaves)]).orElse (.obj []) =
      .record [("roots", .arr roots), ("leaves", .arr leaves)] := rfl
  have rootsThere : (Json.record [("roots", .arr roots), ("leaves", .arr leaves)]).member "roots" =
      .ok (.arr roots) := rfl
  have leavesThere : (Json.record [("roots", .arr roots), ("leaves", .arr leaves)]).member "leaves" =
      .ok (.arr leaves) := rfl
  have noIndex : hashIndexOfValue .null = .ok none := rfl
  rw [ofDocument, toDocument, Json.fields_for_record]
  simp only [Fields.getD, Fields.get_record, bind, Except.bind]
  cases hashIndex with
  | none =>
    simp [List.lookup_cons, graph, rootsThere, leavesThere, components_of_value, noIndex, pure,
      Except.pure]
  | some index =>
    simp [List.lookup_cons, graph, rootsThere, leavesThere, components_of_value,
      hash_index_of_value, pure, Except.pure]

end Manifest

end ContractGraph
