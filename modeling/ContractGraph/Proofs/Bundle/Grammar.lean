import ContractGraph.Bundle.Validation
import ContractGraph.Proofs.Drift.Validated
import ContractGraph.Proofs.Json.Same

/-!
# The grammar of bundle documents

What a document of bundles has to look like, said member by member. A member with two names counts
under its alias whenever that is there, and what may be left out may also be null, except for the
truncation mark. Validation finds no error exactly in the documents of this grammar.

Objects whose unknown members are kept have to be records, with a text for every key; all objects
that are read from a text are.
-/

namespace ContractGraph

set_option autoImplicit false

/-- A member that is there with such a value. -/
def Required (value : Json → Prop) (member : Option Json) : Prop := ∃ v, member = some v ∧ value v

/-- A member that is left out or has such a value. -/
def Optional (value : Json → Prop) (member : Option Json) : Prop := ∀ v, member = some v → value v

/-- The member under an alias, or under the name when there is none under the alias. -/
def Fields.aliased (fields : Fields) (names : String × String) : Option Json :=
  (fields.get? names.1).or (fields.get? names.2)

namespace Json

def IsText (v : Json) : Prop := ∃ s, v = .str s

def IsTextOrNull (v : Json) : Prop := v = .null ∨ v.IsText

def IsArray (item : Json → Prop) (v : Json) : Prop := ∃ items, v = .arr items ∧ ∀ w ∈ items, item w

def IsObject (members : Fields → Prop) (v : Json) : Prop := ∃ fields, v = .obj fields ∧ members fields

/-- An object with a text for every key. -/
def IsRecord (members : Fields → Prop) : Json → Prop :=
  IsObject fun fields => (∀ f ∈ fields, ∃ name, f.1 = .str name) ∧ members fields

/-- A number of any kind that is zero or one, or a word for a truth value, whatever the case of its
ASCII letters. Truth values count as zero and one. -/
inductive IsLaxBool : Json → Prop
  | number {v : Json} {k : Key} {n : ℚ} (scalar : v.toKey? = some k)
      (value : k.meaning = .place (.number n)) (bit : n = 0 ∨ n = 1) : IsLaxBool v
  | word {s w : String} (same : s.toList.map Char.toLower = w.toList)
      (known : w ∈ ["0", "off", "f", "false", "n", "no", "1", "on", "t", "true", "y", "yes"]) :
      IsLaxBool (.str s)

end Json

namespace Bundle

open Json

/-- The texts of a contract by alias and name. -/
def contractTexts : List (String × String) := [
  ("schemaVersion", "schema_version"), ("entryId", "entry_id"),
  ("semanticHash", "semantic_hash"), ("fileHash", "file_hash")]

/-- The texts by alias and name that tell more about something missing. -/
def missingTexts : List (String × String) := [
  ("referencedBy", "referenced_by"), ("packageName", "package_name"),
  ("packageVersion", "package_version")]

structure ContractMembers (fields : Fields) : Prop where
  type : Required (· = .str "UIFContract") (fields.get? "type")
  texts : ∀ names ∈ contractTexts, Optional IsTextOrNull (fields.aliased names)

structure NodeMembers (fields : Fields) : Prop where
  id : Required IsText (fields.aliased ("entryId", "entry_id"))
  contract : Required (IsRecord ContractMembers) (fields.get? "contract")

/-- An array of exactly two texts. -/
def IsEdge (v : Json) : Prop := ∃ user target, v = .arr [.str user, .str target]

structure GraphMembers (fields : Fields) : Prop where
  nodes : Required (IsArray (IsRecord NodeMembers)) (fields.get? "nodes")
  edges : Required (IsArray IsEdge) (fields.get? "edges")

structure MissingMembers (fields : Fields) : Prop where
  name : Required IsText (fields.get? "name")
  reason : Required IsText (fields.get? "reason")
  texts : ∀ names ∈ missingTexts, Optional IsTextOrNull (fields.aliased names)

structure MetaMembers (fields : Fields) : Prop where
  missing : Required (IsArray (IsObject MissingMembers)) (fields.get? "missing")
  source : Optional IsTextOrNull (fields.get? "source")
  truncated : Optional IsLaxBool (fields.get? "truncated")

structure BundleMembers (fields : Fields) : Prop where
  type : Required (· = .str "LogicStampBundle") (fields.get? "type")
  schemaVersion : Required (· = .str "0.1") (fields.get? "schemaVersion")
  entryId : Required (·.truthy = true) (fields.get? "entryId")
  graph : Required (IsObject GraphMembers) (fields.get? "graph")
  about : Required (IsRecord MetaMembers) (fields.get? "meta")

end Bundle

/-- An array of bundles. -/
def IsBundleDocument : Json → Prop := Json.IsArray (Json.IsObject Bundle.BundleMembers)

section Members

variable (value : Json → Prop) (member : Option Json)

theorem required_iff (null : ¬ value .null) : value (member.getD .null) ↔ Required value member := by
  cases member <;> simp [Required, null]

theorem optional_iff (null : value .null) : value (member.getD .null) ↔ Optional value member := by
  cases member <;> simp [Optional, null]

theorem either_member_eq (fields : Fields) (names : String × String) :
    Bundle.eitherMember fields names.1 names.2 = (fields.aliased names).getD .null := by
  rw [Bundle.eitherMember, Fields.aliased, Fields.getD]
  cases fields.get? names.1 <;> rfl

end Members

namespace Json

theorem string_eq_some_iff {v : Json} {s : String} : v.string? = some s ↔ v = .str s := by
  cases v <;> simp [string?]

theorem is_text_iff {v : Json} : v.IsText ↔ v.string?.isSome := by
  cases v <;> simp [IsText, string?]

theorem optional_text_eq_iff {v : Json} {s : String} :
    Bundle.optionalText? v = some (some s) ↔ v = .str s := by
  cases v <;> simp [Bundle.optionalText?]

theorem optional_text_iff {v : Json} : (Bundle.optionalText? v).isSome ↔ v.IsTextOrNull := by
  cases v <;> simp [IsTextOrNull, IsText, Bundle.optionalText?]

@[simp] theorem is_array_arr {item : Json → Prop} {items : List Json} :
    IsArray item (.arr items) ↔ ∀ w ∈ items, item w := by
  simp [IsArray]

@[simp] theorem is_object_obj {members : Fields → Prop} {fields : Fields} :
    IsObject members (.obj fields) ↔ members fields := by
  simp [IsObject]

theorem text_keys_of_documents {fields : Fields} (documents : fieldsAreDocuments fields = true) :
    ∀ f ∈ fields, ∃ name, f.1 = .str name := by
  induction fields with
  | nil => simp
  | cons f rest ih =>
    rcases f with ⟨key, v⟩
    cases key with
    | str name =>
      rw [fieldsAreDocuments, Bool.and_eq_true] at documents
      exact List.forall_mem_cons.mpr ⟨⟨name, rfl⟩, ih documents.2⟩
    | _ => cases documents

/-- In what is read from a text every object is a record. -/
theorem is_record_of_document {members : Fields → Prop} {v : Json} (document : v.IsDocument) :
    IsRecord members v ↔ IsObject members v := by
  constructor
  · rintro ⟨fields, rfl, -, own⟩
    exact ⟨fields, rfl, own⟩
  · rintro ⟨fields, rfl, own⟩
    exact ⟨fields, rfl, text_keys_of_documents document, own⟩

theorem same_whole_iff {v : Json} {i : Int} : v.same (.int i) = true ↔
    ∃ k, v.toKey? = some k ∧ k.meaning = .place (.number i) := by
  have whole : (Key.int i).meaning = .place (.number i) := by
    simp [Key.meaning, Key.point?, LinePoint.ofInt, LinePoint.place]
  cases v <;> simp [same, toKey?, Key.same_iff, whole]

theorem lax_bool_iff {v : Json} : Bundle.isLaxBool v = true ↔ v.IsLaxBool := by
  constructor
  · intro lax
    cases v with
    | str s =>
      simp only [Bundle.isLaxBool, Bundle.truthWords, List.contains_iff_mem] at lax
      exact .word (w := String.ofList (s.toList.map Char.toLower)) (by simp) lax
    | _ =>
      simp only [Bundle.isLaxBool, Bool.or_eq_true, same_whole_iff] at lax
      rcases lax with ⟨k, scalar, value⟩ | ⟨k, scalar, value⟩
      · exact .number scalar value (.inl Int.cast_zero)
      · exact .number scalar value (.inr Int.cast_one)
  · intro lax
    cases lax with
    | @number _ k n scalar value bit =>
      have equal : v.same (.int 0) = true ∨ v.same (.int 1) = true := by
        rcases bit with rfl | rfl
        · exact .inl (same_whole_iff.mpr ⟨k, scalar, by rw [value, Int.cast_zero]⟩)
        · exact .inr (same_whole_iff.mpr ⟨k, scalar, by rw [value, Int.cast_one]⟩)
      cases v with
      | str s =>
        cases scalar
        cases value
      | _ => exact Bool.or_eq_true_iff.mpr equal
    | word same known =>
      rw [Bundle.isLaxBool, List.contains_iff_mem, same, String.ofList_toList]
      exact known

end Json

theorem named_eq_some_iff {fields fields' : Fields} :
    Bundle.named? fields = some fields' ↔
      fields = fields' ∧ ∀ f ∈ fields, ∃ name, f.1 = .str name := by
  have texts : ∀ k : Key, (Json.ofKey k).isString = true ↔ ∃ name, k = .str name := by
    intro k
    cases k <;> simp [Json.ofKey, Json.isString]
  simp [Bundle.named?, List.all_eq_true, texts, and_comm]

/-- Each item of a list is read as something with a property when the whole list is. -/
theorem exists_map_some_iff {α β : Type} {f : α → Option β} {P : β → Prop} {items : List α} :
    (∃ results, items.mapM f = some results ∧ ∀ b ∈ results, P b) ↔
      ∀ a ∈ items, ∃ b, f a = some b ∧ P b := by
  constructor
  · rintro ⟨results, done, each⟩ a member
    obtain ⟨b, there, read⟩ := (each_of_map_some done).2 a member
    exact ⟨b, read, each b there⟩
  · intro each
    induction items with
    | nil => exact ⟨[], rfl, by simp⟩
    | cons a rest ih =>
      rw [List.forall_mem_cons] at each
      obtain ⟨b, first, here⟩ := each.1
      obtain ⟨others, later, there⟩ := ih each.2
      exact ⟨b :: others, by rw [List.mapM_cons, first, later]; rfl,
        List.forall_mem_cons.mpr ⟨here, there⟩⟩

namespace Bundle

open Json

/-- What a contract is read from: its type and its texts may be left out or null. -/
structure HeadMembers (fields : Fields) : Prop where
  type : Optional IsTextOrNull (fields.get? "type")
  texts : ∀ names ∈ contractTexts, Optional IsTextOrNull (fields.aliased names)

theorem texts_iff {fields : Fields} {names : String × String} :
    Optional IsTextOrNull (fields.aliased names) ↔
      (optionalText? (eitherMember fields names.1 names.2)).isSome := by
  rw [optional_text_iff, either_member_eq, optional_iff IsTextOrNull _ (.inl rfl)]

theorem of_fields_eq_some_iff {fields : Fields} {head : ContractHead} :
    ContractHead.ofFields? fields = some head ↔
      optionalText? (fields.getD "type") = some head.type ∧
      optionalText? (eitherMember fields "schemaVersion" "schema_version") =
        some head.schemaVersion ∧
      optionalText? (eitherMember fields "entryId" "entry_id") = some head.entryId ∧
      optionalText? (eitherMember fields "semanticHash" "semantic_hash") =
        some head.semanticHash ∧
      optionalText? (eitherMember fields "fileHash" "file_hash") = some head.fileHash := by
  rcases head with ⟨type, schemaVersion, entryId, semanticHash, fileHash⟩
  simp [ContractHead.ofFields?, Option.bind_eq_some_iff]

theorem head_read_iff {fields : Fields} :
    (∃ head, ContractHead.ofFields? fields = some head) ↔ HeadMembers fields := by
  have type : (optionalText? (fields.getD "type")).isSome ↔
      Optional IsTextOrNull (fields.get? "type") := by
    rw [optional_text_iff, Fields.getD, optional_iff IsTextOrNull _ (.inl rfl)]
  constructor
  · rintro ⟨head, read⟩
    obtain ⟨typed, version, id, semantic, file⟩ := of_fields_eq_some_iff.mp read
    refine ⟨type.mp (typed ▸ rfl), ?_⟩
    simp [contractTexts, texts_iff, version, id, semantic, file]
  · rintro ⟨typed, texts⟩
    simp only [contractTexts, List.forall_mem_cons, texts_iff, ← type,
      Option.isSome_iff_exists] at typed texts
    obtain ⟨⟨version, h₁⟩, ⟨id, h₂⟩, ⟨semantic, h₃⟩, ⟨file, h₄⟩, -⟩ := texts
    obtain ⟨typed, h₀⟩ := typed
    exact ⟨⟨typed, version, id, semantic, file⟩,
      of_fields_eq_some_iff.mpr ⟨h₀, h₁, h₂, h₃, h₄⟩⟩

theorem optional_head_iff {v : Json} {head : ContractHead} :
    optionalHead? v = some (some head) ↔
      IsRecord (fun fields => ContractHead.ofFields? fields = some head) v := by
  cases v with
  | obj fields =>
    simp [optionalHead?, IsRecord, IsObject, Option.bind_eq_some_iff, named_eq_some_iff]
  | _ => simp [optionalHead?, IsRecord, IsObject]

/-- A contract is one when its head is read and has the type of contracts. -/
theorem members_iff {fields : Fields} :
    (∃ head, ContractHead.ofFields? fields = some head ∧
      head.type = some Contract.documentType) ↔ ContractMembers fields := by
  constructor
  · rintro ⟨head, read, typed⟩
    have type := (of_fields_eq_some_iff.mp read).1
    rw [typed] at type
    have own := (required_iff (· = Json.str "UIFContract") _ (by simp)).mp
      (optional_text_eq_iff.mp type)
    exact ⟨own, (head_read_iff.mp ⟨head, read⟩).texts⟩
  · rintro ⟨type, texts⟩
    have own := (required_iff (· = Json.str "UIFContract") _ (by simp)).mpr type
    obtain ⟨v, there, same⟩ := type
    have typed : Optional IsTextOrNull (fields.get? "type") := by
      intro w here
      exact .inr ⟨_, (Option.some.inj (here.symm.trans there)).trans same⟩
    obtain ⟨head, read⟩ := head_read_iff.mpr ⟨typed, texts⟩
    have type := (of_fields_eq_some_iff.mp read).1
    rw [Fields.getD, own] at type
    exact ⟨head, read, (Option.some.inj type).symm⟩

theorem contract_read_iff {v : Json} :
    (∃ contract, optionalHead? v = some contract ∧
      (contract.filter fun head => head.type = some Contract.documentType).isSome) ↔
      IsRecord ContractMembers v := by
  constructor
  · rintro ⟨contract, read, valid⟩
    obtain ⟨head, kept⟩ := Option.isSome_iff_exists.mp valid
    obtain ⟨rfl, type⟩ := Option.filter_eq_some_iff.mp kept
    obtain ⟨fields, rfl, keys, read⟩ := optional_head_iff.mp read
    exact ⟨fields, rfl, keys, members_iff.mp ⟨head, read, of_decide_eq_true type⟩⟩
  · rintro ⟨fields, rfl, keys, members⟩
    obtain ⟨head, read, type⟩ := members_iff.mpr members
    exact ⟨some head, optional_head_iff.mpr ⟨fields, rfl, keys, read⟩, by simp [type]⟩

theorem node_eq_some_iff {fields : Fields} {n : GraphNode} :
    GraphNode.ofValue? (.obj fields) = some n ↔ (∀ f ∈ fields, ∃ name, f.1 = .str name) ∧
      fields.aliased ("entryId", "entry_id") = some (.str n.entryId) ∧
      optionalHead? (fields.getD "contract") = some n.contract := by
  rcases n with ⟨entryId, contract⟩
  have id : Json.string? (eitherMember fields "entryId" "entry_id") = some entryId ↔
      fields.aliased ("entryId", "entry_id") = some (.str entryId) := by
    rw [Json.string_eq_some_iff, either_member_eq fields ("entryId", "entry_id")]
    cases fields.aliased ("entryId", "entry_id") <;> simp
  simp [GraphNode.ofValue?, Option.bind_eq_some_iff, named_eq_some_iff, id]

theorem node_read_iff {v : Json} :
    (∃ n, GraphNode.ofValue? v = some n ∧ (validHead? n).isSome) ↔ IsRecord NodeMembers v := by
  cases v with
  | obj fields =>
    have contract := required_iff (IsRecord ContractMembers) (Fields.get? fields "contract")
      (by simp [IsRecord, IsObject])
    constructor
    · rintro ⟨n, read, valid⟩
      obtain ⟨keys, id, embedded⟩ := node_eq_some_iff.mp read
      exact ⟨fields, rfl, keys, ⟨_, id, _, rfl⟩,
        contract.mp (contract_read_iff.mp ⟨_, embedded, valid⟩)⟩
    · rintro ⟨_, same, keys, ⟨_, id, entryId, rfl⟩, members⟩
      cases same
      obtain ⟨head, embedded, valid⟩ := contract_read_iff.mpr (contract.mpr members)
      exact ⟨⟨entryId, head⟩, node_eq_some_iff.mpr ⟨keys, id, embedded⟩, valid⟩
  | _ => simp [GraphNode.ofValue?, IsRecord, IsObject]

theorem edge_read_iff {v : Json} : (∃ e, edge? v = some e) ↔ IsEdge v := by
  constructor
  · rintro ⟨e, read⟩
    unfold edge? at read
    split at read
    · exact ⟨_, _, rfl⟩
    · cases read
  · rintro ⟨user, target, rfl⟩
    exact ⟨_, rfl⟩

theorem list_read_iff {α : Type} {item? : Json → Option α} {P : α → Prop} {v : Json} :
    (∃ results, listOf? item? v = some results ∧ ∀ a ∈ results, P a) ↔
      IsArray (fun w => ∃ a, item? w = some a ∧ P a) v := by
  cases v with
  | arr items => exact exists_map_some_iff.trans is_array_arr.symm
  | _ => simp [listOf?, IsArray]

theorem edges_read_iff {v : Json} :
    (∃ edges, listOf? edge? v = some edges) ↔ IsArray IsEdge v := by
  have each : (∃ edges, listOf? edge? v = some edges ∧ ∀ e ∈ edges, True) ↔ _ := list_read_iff
  simp only [implies_true, and_true, edge_read_iff] at each
  exact each

/-- A graph is read when its parts are, and its nodes have a property when every value that a node is
read from has it. -/
theorem graph_read_iff {P : GraphNode → Prop} {v : Json} :
    (∃ g, Graph.ofValue? v = some g ∧ ∀ n ∈ g.nodes, P n) ↔ IsObject (fun fields =>
      Required (IsArray fun w => ∃ n, GraphNode.ofValue? w = some n ∧ P n) (fields.get? "nodes") ∧
      Required (IsArray IsEdge) (fields.get? "edges")) v := by
  cases v with
  | obj fields =>
    have nodes := required_iff (IsArray fun w => ∃ n, GraphNode.ofValue? w = some n ∧ P n)
      (Fields.get? fields "nodes") (by simp [IsArray])
    have edges := required_iff (IsArray IsEdge) (Fields.get? fields "edges") (by simp [IsArray])
    constructor
    · rintro ⟨g, read, each⟩
      obtain ⟨first, listed, read⟩ := Option.bind_eq_some_iff.mp read
      obtain ⟨second, paired, read⟩ := Option.bind_eq_some_iff.mp read
      cases read
      exact ⟨fields, rfl, nodes.mp (list_read_iff.mp ⟨first, listed, each⟩),
        edges.mp (edges_read_iff.mp ⟨second, paired⟩)⟩
    · rintro ⟨_, same, nodesThere, edgesThere⟩
      cases same
      obtain ⟨first, listed, each⟩ := list_read_iff.mpr (nodes.mpr nodesThere)
      obtain ⟨second, paired⟩ := edges_read_iff.mpr (edges.mpr edgesThere)
      refine ⟨⟨first, second⟩, ?_, each⟩
      exact Option.bind_eq_some_iff.mpr ⟨first, listed,
        Option.bind_eq_some_iff.mpr ⟨second, paired, rfl⟩⟩
  | _ => simp [Graph.ofValue?, IsObject]

theorem is_missing_entry_iff {v : Json} :
    isMissingEntry v = true ↔ IsObject MissingMembers v := by
  cases v with
  | obj fields =>
    have text : ∀ name, (Json.string? (Fields.getD fields name)).isSome ↔
        Required IsText (Fields.get? fields name) := by
      intro name
      rw [← is_text_iff]
      exact required_iff IsText _ (by simp [IsText])
    have more : ∀ first second, (optionalText? (eitherMember fields first second)).isSome ↔
        Optional IsTextOrNull (Fields.aliased fields (first, second)) := by
      intro first second
      rw [texts_iff]
    simp only [isMissingEntry, Bool.and_eq_true, text, more, is_object_obj]
    constructor
    · rintro ⟨⟨⟨⟨name, reason⟩, referrer⟩, package⟩, version⟩
      exact ⟨name, reason, by simp [missingTexts, referrer, package, version]⟩
    · rintro ⟨name, reason, texts⟩
      simp only [missingTexts, List.forall_mem_cons] at texts
      exact ⟨⟨⟨⟨name, reason⟩, texts.1⟩, texts.2.1⟩, texts.2.2.1⟩
  | _ => simp [isMissingEntry, IsObject]

theorem is_meta_iff {v : Json} : isMeta v = true ↔ IsRecord MetaMembers v := by
  cases v with
  | obj fields =>
    have keys : (named? fields).isSome ↔ ∀ f ∈ fields, ∃ name, f.1 = .str name := by
      simp [Option.isSome_iff_exists, named_eq_some_iff]
    have missing := required_iff (IsArray (IsObject MissingMembers))
      (Fields.get? fields "missing") (by simp [IsArray])
    have source : (optionalText? (Fields.getD fields "source")).isSome ↔
        Optional IsTextOrNull (Fields.get? fields "source") := by
      rw [optional_text_iff]
      exact optional_iff IsTextOrNull _ (.inl rfl)
    have truncated : (Fields.get? fields "truncated").all isLaxBool = true ↔
        Optional IsLaxBool (Fields.get? fields "truncated") := by
      cases Fields.get? fields "truncated" <;> simp [Optional, lax_bool_iff]
    have members : MetaMembers fields ↔
        IsArray (IsObject MissingMembers) (Fields.getD fields "missing") ∧
          (optionalText? (Fields.getD fields "source")).isSome ∧
          (Fields.get? fields "truncated").all isLaxBool = true := by
      rw [source, truncated, Fields.getD, missing]
      constructor
      · rintro ⟨entries, first, last⟩
        exact ⟨entries, first, last⟩
      · rintro ⟨entries, first, last⟩
        exact ⟨entries, first, last⟩
    rw [isMeta, IsRecord, is_object_obj, members, ← keys]
    cases Fields.getD fields "missing" with
    | arr items =>
      simp [List.all_eq_true, is_missing_entry_iff, and_assoc]
    | _ => simp [IsArray]
  | _ => simp [isMeta, IsRecord, IsObject]

theorem raised_unless_iff {p : Prop} [Decidable p] {problem : Problem} :
    (if p then [] else [problem]) = [] ↔ p := by
  by_cases given : p <;> simp [given]

theorem graph_valid_iff {v : Json} :
    (∃ g, Graph.ofValue? v = some g ∧ g.nodes.flatMap nodeProblems = []) ↔
      IsObject GraphMembers v := by
  simp only [List.flatMap_eq_nil_iff, nodeProblems, raised_unless_iff]
  rw [graph_read_iff]
  simp only [node_read_iff]
  constructor
  · rintro ⟨fields, rfl, nodes, edges⟩
    exact ⟨fields, rfl, nodes, edges⟩
  · rintro ⟨fields, rfl, nodes, edges⟩
    exact ⟨fields, rfl, nodes, edges⟩

theorem header_problems_nil_iff {fields : Fields} : headerProblems fields = [] ↔
    Required (· = .str "LogicStampBundle") (fields.get? "type") ∧
      Required (· = .str "0.1") (fields.get? "schemaVersion") ∧
      Required (·.truthy = true) (fields.get? "entryId") := by
  have type := required_iff (· = Json.str "LogicStampBundle") (fields.get? "type") (by simp)
  have version := required_iff (· = Json.str "0.1") (fields.get? "schemaVersion") (by simp)
  have id := required_iff (·.truthy = true) (fields.get? "entryId") (by simp [truthy])
  simp only [headerProblems, List.append_eq_nil_iff, raised_unless_iff, and_assoc]
  exact and_congr type (and_congr version id)

theorem meta_problems_nil_iff {fields : Fields} :
    metaProblems fields = [] ↔ Required (IsRecord MetaMembers) (fields.get? "meta") := by
  rw [metaProblems, raised_unless_iff, is_meta_iff]
  exact required_iff (IsRecord MetaMembers) _ (by simp [IsRecord, IsObject])

/-- A bundle has no problems exactly when it is one by the grammar. -/
theorem problems_nil_iff {v : Json} : (check v).problems = [] ↔ IsObject BundleMembers v := by
  cases v with
  | obj fields =>
    have graph := required_iff (IsObject GraphMembers) (Fields.get? fields "graph")
      (by simp [IsObject])
    have problems : (check (.obj fields)).problems = [] ↔ headerProblems fields = [] ∧
        metaProblems fields = [] ∧
        ∃ g, Graph.ofValue? (Fields.getD fields "graph") = some g ∧
          g.nodes.flatMap nodeProblems = [] := by
      rw [check]
      cases Graph.ofValue? (Fields.getD fields "graph") <;> simp
    rw [problems, header_problems_nil_iff, meta_problems_nil_iff, graph_valid_iff, is_object_obj]
    constructor
    · rintro ⟨⟨type, version, id⟩, about, valid⟩
      exact ⟨type, version, id, graph.mp valid, about⟩
    · rintro ⟨type, version, id, valid, about⟩
      exact ⟨⟨type, version, id⟩, about, graph.mpr valid⟩
  | _ => simp [check, IsObject]

theorem validates_iff (d : Json) :
    (validate d).ok = true ↔ IsArray (fun b => (check b).problems = []) d := by
  cases d with
  | arr bundles =>
    rw [is_array_arr, ← ValidationReport.errors_of_bundles_iff 1]
    exact List.isEmpty_iff
  | _ => simp [validate, ValidationReport.ok, IsArray]

end Bundle

/-- Validation finds no error exactly in the documents of the grammar. -/
theorem validates_iff_grammatical (d : Json) : (validate d).ok = true ↔ IsBundleDocument d := by
  rw [Bundle.validates_iff, IsBundleDocument]
  simp only [Bundle.problems_nil_iff]

end ContractGraph
