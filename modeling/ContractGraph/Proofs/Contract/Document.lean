import ContractGraph.Contract.Fingerprint
import ContractGraph.Proofs.Json.Members
import ContractGraph.Proofs.Json.ReadBack
import ContractGraph.Proofs.Number.Digits
import ContractGraph.Proofs.Outcome

/-!
# Documents of contracts

Reading is lenient, writing is not: what a contract was read from may be spelled in many ways, its own
document in one. A contract that was read is read again from its own document, and where a document has
a member under the newer name, nothing depends on the older one.
-/

namespace ContractGraph

set_option autoImplicit false

namespace Json

theorem append_ne_empty {s t : String} (some : s ≠ "") : s ++ t ≠ "" := by
  intro empty
  exact some (String.append_eq_empty_iff.mp empty).1

/-- A value that is truthy has a text that is not empty. -/
theorem text_ne_empty {v : Json} (there : v.truthy = true) : v.text ≠ "" := by
  cases v with
  | null => cases there
  | bool b => cases b <;> decide
  | int i =>
    obtain ⟨c, cs, written, -⟩ := int_starts i
    intro empty
    have none : (toString i).toList = [] := congrArg String.toList empty
    rw [written] at none
    cases none
  | float f => exact Binary64.displayLayout.text_ne_empty (by decide) (by decide) f
  | str s => simpa [truthy] using there
  | arr items => exact append_ne_empty (append_ne_empty (by decide))
  | obj fields => exact append_ne_empty (append_ne_empty (by decide))

theorem text_or_ne_empty (v : Json) {default : String} (some : default ≠ "") :
    v.textOr default ≠ "" := by
  rw [textOr, orElse]
  split
  · next there => exact text_ne_empty there
  · exact some

/-- The empty text gives way to a default, any other text stays. -/
theorem text_or_str {s default : String} (kept : s ≠ "" ∨ default = "") :
    (Json.str s).textOr default = s := by
  by_cases empty : s = ""
  · subst empty
    exact kept.resolve_left (· rfl)
  · simp [textOr, orElse, truthy, empty]

theorem item_texts_strings (ss : List String) : (strings ss).itemTexts = ss := by
  rw [strings, itemTexts, List.map_map]
  exact List.map_id ss

theorem to_record_obj (fields : Fields) : (Json.obj fields).toRecord = .ok fields := by
  rw [toRecord, or_else_obj]

end Json

theorem Exports.of_value_to_value (e : Exports) : ofValue e.toValue = e := by
  cases e with
  | defaultExport => rfl
  | named names =>
    cases names with
    | nil => rfl
    | cons n rest => exact congrArg Exports.named (Json.item_texts_strings (n :: rest))
  | absent => rfl

theorem Composition.of_fields_to_value (c : Composition) :
    ofFields c.toValue.fieldsOrNone = c := by
  simp only [ofFields, toValue, Json.record, Json.fieldsOrNone, Fields.getD, Fields.get_record]
  simp [List.lookup_cons, Json.item_texts_strings]

theorem Interface.of_fields_to_value (i : Interface) : ofFields i.toValue.fieldsOrNone = .ok i := by
  rcases i with ⟨props, events, state⟩
  cases state <;>
  · simp only [ofFields, toValue, Json.record, Json.fieldsOrNone, Fields.getD, Fields.get_record]
    simp [List.lookup_cons, Json.to_record_obj, stateOf, bind, Except.bind, pure, Except.pure]

/-- The value under the newer of two names, or under the older one when the newer is not there. -/
def Fields.spelled (fields : Fields) (newer older : String) : Json :=
  (fields.get? newer).getD (fields.getD older)

/-- Two objects that differ in nothing but what stands under one name. -/
def Fields.AgreeBut (older : String) (a b : Fields) : Prop :=
  ∀ name, name ≠ older → Fields.get? a name = Fields.get? b name

namespace Fields.AgreeBut

variable {fields others : Fields} {newer older : String}

theorem get_else {name : String} (agree : fields.AgreeBut older others) (apart : name ≠ older) :
    others.getD name = fields.getD name := by
  rw [getD, getD, agree name apart]

theorem spelled_newer (agree : fields.AgreeBut older others) (apart : newer ≠ older)
    (there : (fields.get? newer).isSome = true) :
    others.spelled newer older = fields.spelled newer older := by
  obtain ⟨v, found⟩ := Option.isSome_iff_exists.mp there
  have also : others.get? newer = some v := (agree newer apart).symm.trans found
  rw [spelled, spelled, found, also]
  rfl

theorem spelled_elsewhere {name : String} (agree : fields.AgreeBut name others)
    (first : newer ≠ name) (second : older ≠ name) :
    others.spelled newer older = fields.spelled newer older := by
  rw [spelled, spelled, agree newer first, agree.get_else second]

end Fields.AgreeBut

theorem Interface.newer_wins {fields others : Fields}
    (there : (fields.get? "emits").isSome = true) (agree : fields.AgreeBut "events" others) :
    ofFields others = ofFields fields := by
  have events := agree.spelled_newer (by decide) there
  rw [Fields.spelled, Fields.spelled] at events
  rw [ofFields, ofFields, events, agree.get_else (by decide), agree.get_else (by decide)]

namespace Contract

/-- What a contract holds that was read from the members of a document. -/
structure ReadFrom (fields : Fields) (c : Contract) : Prop where
  entry_id : fields.getD "entryId" = .str c.entryId
  named : c.entryId ≠ ""
  description : c.description = (fields.getD "description").textOr ""
  composition : c.composition = .ofFields (fields.spelled "composition" "version").fieldsOrNone
  interface :
    Interface.ofFields (fields.spelled "interface" "logicSignature").fieldsOrNone = .ok c.interface
  exports : c.exports = .ofValue (fields.getD "exports")
  semantic_hash : c.semanticHash = (fields.getD "semanticHash").textOr ""
  file_hash : c.fileHash = (fields.getD "fileHash").textOr ""
  used_in : c.usedIn = (fields.getD "usedIn").itemTexts
  kind : c.kind = (fields.getD "kind").textOr defaultKind
  source : c.source = .obj fields

theorem of_document_iff {d : Json} {c : Contract} :
    ofDocument d = .ok c ↔ ∃ fields, d = .obj fields ∧ c.ReadFrom fields := by
  constructor
  · intro read
    unfold ofDocument at read
    split at read
    · next fields =>
      split at read
      · next entryId id =>
        split at read
        · cases read
        · next named =>
          obtain ⟨interface, done, rfl⟩ := ok_of_map read
          exact ⟨fields, rfl, id, named, rfl, rfl, done, rfl, rfl, rfl, rfl, rfl, rfl⟩
      · cases read
    · cases read
  · rintro ⟨fields, rfl, r⟩
    have interface := r.interface
    rw [Fields.spelled] at interface
    simp only [ofDocument, r.entry_id, if_neg r.named, interface, Except.map]
    congr 1
    rw [Contract.mk.injEq]
    exact ⟨rfl, r.description.symm, r.composition.symm, rfl, r.exports.symm, r.semantic_hash.symm,
      r.file_hash.symm, r.used_in.symm, r.kind.symm, r.source.symm⟩

theorem ReadFrom.kind_ne_empty {fields : Fields} {c : Contract} (r : c.ReadFrom fields) :
    c.kind ≠ "" := by
  rw [r.kind]
  exact Json.text_or_ne_empty _ (by decide)

/-- The document of a contract that has an id and a kind is read as the contract. -/
theorem read_from_to_document {c : Contract} (named : c.entryId ≠ "") (kinded : c.kind ≠ "") :
    ∃ fields, c.toDocument = .obj fields ∧ ReadFrom fields { c with source := c.toDocument } := by
  refine ⟨_, rfl, ?_⟩
  rcases c with ⟨entryId, description, composition, interface, exports, semanticHash, fileHash,
    usedIn, kind, source⟩
  constructor
  · rw [Fields.getD, Fields.get_record]
    rfl
  · exact named
  · rw [Fields.getD, Fields.get_record]
    exact (Json.text_or_str (.inr rfl)).symm
  · rw [Fields.spelled, Fields.get_record]
    exact composition.of_fields_to_value.symm
  · rw [Fields.spelled, Fields.get_record]
    exact interface.of_fields_to_value
  · rw [Fields.getD, Fields.get_record]
    have back := exports.of_value_to_value
    rcases exports with _ | names | _
    · rfl
    · exact back.symm
    · cases usedIn <;> rfl
  · rw [Fields.getD, Fields.get_record]
    exact (Json.text_or_str (.inr rfl)).symm
  · rw [Fields.getD, Fields.get_record]
    exact (Json.text_or_str (.inr rfl)).symm
  · rw [Fields.getD, Fields.get_record]
    rcases usedIn with _ | ⟨first, rest⟩
    · cases exports <;> rfl
    · have back := (Json.item_texts_strings (first :: rest)).symm
      cases exports <;> exact back
  · rw [Fields.getD, Fields.get_record]
    exact (Json.text_or_str (.inl kinded)).symm
  · rfl

/-- The members that have an older and a newer name. -/
def spellings : List (String × String) :=
  [("composition", "version"), ("interface", "logicSignature")]

/-- All names of those members. -/
def spelledNames : List String := ["composition", "version", "interface", "logicSignature"]

/-- A contract is the same when the parts that have two spellings are read alike. -/
theorem ReadFrom.congr {fields others : Fields} {c : Contract} (r : c.ReadFrom fields)
    (common : ∀ name ∉ spelledNames, others.getD name = fields.getD name)
    (composition : others.spelled "composition" "version" = fields.spelled "composition" "version")
    (interface : Interface.ofFields (others.spelled "interface" "logicSignature").fieldsOrNone =
      Interface.ofFields (fields.spelled "interface" "logicSignature").fieldsOrNone) :
    ofDocument (.obj others) = .ok { c with source := .obj others } := by
  refine of_document_iff.mpr ⟨others, rfl, ?_⟩
  exact {
    entry_id := (common "entryId" (by decide)).trans r.entry_id
    named := r.named
    description := by rw [common "description" (by decide), r.description]
    composition := by rw [composition, r.composition]
    interface := interface.trans r.interface
    exports := by rw [common "exports" (by decide), r.exports]
    semantic_hash := by rw [common "semanticHash" (by decide), r.semantic_hash]
    file_hash := by rw [common "fileHash" (by decide), r.file_hash]
    used_in := by rw [common "usedIn" (by decide), r.used_in]
    kind := by rw [common "kind" (by decide), r.kind]
    source := rfl }

theorem common_of_agree {fields others : Fields} {name : String} (known : name ∈ spelledNames)
    (agree : fields.AgreeBut name others) :
    ∀ other ∉ spelledNames, others.getD other = fields.getD other := by
  intro other apart
  refine agree.get_else ?_
  rintro rfl
  exact apart known

theorem ReadFrom.newer_wins {fields others : Fields} {c : Contract} (r : c.ReadFrom fields)
    {spelling : String × String} (known : spelling ∈ spellings)
    (there : (fields.get? spelling.1).isSome = true) (agree : fields.AgreeBut spelling.2 others) :
    ofDocument (.obj others) = .ok { c with source := .obj others } := by
  simp only [spellings, List.mem_pair] at known
  rcases known with rfl | rfl
  · have common := common_of_agree (by decide) agree
    have interface : others.spelled "interface" "logicSignature" =
        fields.spelled "interface" "logicSignature" := agree.spelled_elsewhere (by decide) (by decide)
    exact r.congr common (agree.spelled_newer (by decide) there) (by rw [interface])
  · have common := common_of_agree (by decide) agree
    have interface := agree.spelled_newer (by decide) there
    exact r.congr common (agree.spelled_elsewhere (by decide) (by decide)) (by rw [interface])

/-- In an interface too the newer name wins, whichever name the interface itself stands under. -/
theorem ReadFrom.emits_win {fields others inner changed : Fields} {c : Contract}
    (r : c.ReadFrom fields) {name : String} (known : name ∈ ["interface", "logicSignature"])
    (agree : fields.AgreeBut name others) (before : fields.get? name = some (.obj inner))
    (after : others.get? name = some (.obj changed)) (there : (inner.get? "emits").isSome = true)
    (within : inner.AgreeBut "events" changed) :
    ofDocument (.obj others) = .ok { c with source := .obj others } := by
  have same := Interface.newer_wins there within
  simp only [List.mem_pair] at known
  rcases known with rfl | rfl
  · have composition : others.spelled "composition" "version" =
        fields.spelled "composition" "version" := agree.spelled_elsewhere (by decide) (by decide)
    refine r.congr (common_of_agree (by decide) agree) composition ?_
    rw [Fields.spelled, Fields.spelled, before, after]
    exact same
  · have composition : others.spelled "composition" "version" =
        fields.spelled "composition" "version" := agree.spelled_elsewhere (by decide) (by decide)
    refine r.congr (common_of_agree (by decide) agree) composition ?_
    rw [Fields.spelled, Fields.spelled, Fields.getD, Fields.getD, before, after,
      agree "interface" (by decide)]
    cases others.get? "interface" with
    | none => exact same
    | some v => rfl

/-- A contract that was read is read from its own document again, its stable texts unchanged. Of two
spellings in the document it was read from, the newer one decided alone wherever it was there. -/
theorem reread_own_document {d : Json} {c : Contract} (read : ofDocument d = .ok c) :
    (∃ c', ofDocument c.toDocument = .ok c' ∧ c' = { c with source := c.toDocument } ∧
      c'.composition.structureText = c.composition.structureText ∧
      c'.interface.signatureText = c.interface.signatureText ∧
      semanticText c'.composition c'.interface = semanticText c.composition c.interface) ∧
    ∃ fields : Fields, d = .obj fields ∧ ∀ others : Fields,
      (∀ spelling ∈ spellings, (fields.get? spelling.1).isSome = true →
        fields.AgreeBut spelling.2 others →
          ofDocument (.obj others) = .ok { c with source := .obj others }) ∧
      ∀ name ∈ ["interface", "logicSignature"], ∀ inner changed : Fields,
        fields.get? name = some (.obj inner) → others.get? name = some (.obj changed) →
        fields.AgreeBut name others → (inner.get? "emits").isSome = true →
        inner.AgreeBut "events" changed →
          ofDocument (.obj others) = .ok { c with source := .obj others } := by
  obtain ⟨fields, rfl, r⟩ := of_document_iff.mp read
  have own := of_document_iff.mpr (read_from_to_document r.named r.kind_ne_empty)
  refine ⟨⟨_, own, rfl, rfl, rfl, rfl⟩, fields, rfl, ?_⟩
  intro others
  constructor
  · intro spelling known there agree
    exact r.newer_wins known there agree
  · intro name known inner changed before after agree there within
    exact r.emits_win known agree before after there within

/-- Members in both spellings, the newer ones null, and values of other types than expected. -/
def mixedSpelling : Json := .record [
  ("entryId", .str "a.tsx"), ("composition", .null),
  ("version", .record [("hooks", .strings ["useState"])]),
  ("logicSignature", .record [
    ("props", .arr [.arr [.str "size", .int 1]]), ("emits", .null),
    ("events", .record [("click", .str "void")])]),
  ("exports", .record [("named", .arr [.int 1, .null])]),
  ("description", .bool true), ("kind", .arr [.int 5]), ("usedIn", .str "b.tsx")]

theorem reread_own_document_of_mixed :
    ∃ c, ofDocument mixedSpelling = .ok c ∧
      c.composition = {} ∧ c.interface = { props := [(.str "size", .int 1)] } ∧
      c.exports = .named ["1", "None"] ∧ c.kind = "[5]" ∧
      ofDocument c.toDocument = .ok { c with source := c.toDocument } := by
  have parts : (ofDocument mixedSpelling).map
      (fun c => (c.composition, c.interface, c.exports, c.kind)) =
      .ok ({}, { props := [(.str "size", .int 1)] }, .named ["1", "None"], "[5]") := by
    decide +kernel
  obtain ⟨c, read, held⟩ := ok_of_map parts
  obtain ⟨⟨c', again, same, -⟩, -⟩ := reread_own_document read
  simp only [Prod.mk.injEq] at held
  obtain ⟨composition, interface, exports, kind⟩ := held
  exact ⟨c, read, composition, interface, exports, kind, same ▸ again⟩

end Contract

end ContractGraph
