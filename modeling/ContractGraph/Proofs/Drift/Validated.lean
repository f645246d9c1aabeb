import ContractGraph.Bundle.Validation
import ContractGraph.Proofs.Drift.Indexed
import ContractGraph.Proofs.Drift.Signature
import Mathlib.Algebra.GroupWithZero.Nat

/-!
# Snapshots of validated documents

In a document without errors every node of every bundle is an object with a contract. So a snapshot
can be taken of it when the contracts of its named nodes list their imports and hooks, and each of
these nodes is an entry of the snapshot or one of its collisions. A node without an entry id passes
the checks as well, and no snapshot has it.
-/

namespace ContractGraph

set_option autoImplicit false

/-- A list is read item by item. -/
theorem each_of_map_some {α β : Type} {f : α → Option β} {items : List α} {results : List β}
    (done : items.mapM f = some results) :
    items.length = results.length ∧ ∀ a ∈ items, ∃ b ∈ results, f a = some b := by
  induction items generalizing results with
  | nil =>
    cases done
    exact ⟨rfl, by simp⟩
  | cons a rest ih =>
    rw [List.mapM_cons] at done
    obtain ⟨b, first, done⟩ := Option.bind_eq_some_iff.mp done
    obtain ⟨others, later, done⟩ := Option.bind_eq_some_iff.mp done
    cases done
    obtain ⟨lengths, each⟩ := ih later
    refine ⟨by simp [lengths], List.forall_mem_cons.mpr ⟨⟨b, List.mem_cons_self, first⟩, ?_⟩⟩
    intro c member
    obtain ⟨d, there, read⟩ := each c member
    exact ⟨d, List.mem_cons_of_mem b there, read⟩

namespace Json

/-- Nothing, or a value whose elements can be gone through. -/
def HasElements (v : Json) : Prop :=
  v.truthy = false ∨ v.shape = .arr ∨ v.shape = .obj ∨ v.shape = .str

theorem elements_or_none_ok {v : Json} (has : v.HasElements) :
    ∃ items, v.elementsOrNone = .ok items := by
  rcases has with nothing | arr | obj | str
  · exact ⟨[], by rw [elementsOrNone, nothing]; rfl⟩
  all_goals
    cases there : v.truthy with
    | false => exact ⟨[], by rw [elementsOrNone, there]; rfl⟩
    | true => cases v <;> first | exact ⟨_, by rw [elementsOrNone, there]; rfl⟩ | contradiction

instance (v : Json) : Decidable v.HasElements := inferInstanceAs (Decidable (_ ∨ _))

instance (v : Json) : Decidable v.IsPart := inferInstanceAs (Decidable (_ ∨ _))

/-- The items of an array, none for any other value. -/
def itemsOrNone : Json → List Json
  | .arr items => items
  | _ => []

end Json

/-- What a contract document has to be for a signature to be taken of it. -/
def DriftSignature.Listable (fields : Fields) : Prop :=
  (fields.spelled "composition" "version").IsPart ∧ ∀ name ∈ ["imports", "hooks"],
    ((fields.spelled "composition" "version").fieldsOrNone.getD name).HasElements

instance (fields : Fields) : Decidable (DriftSignature.Listable fields) :=
  inferInstanceAs (Decidable (_ ∧ _))

theorem DriftSignature.of_listable {fields : Fields} (listable : Listable fields) :
    ∃ s, ofDocument (.obj fields) = .ok s := by
  obtain ⟨part, names⟩ := listable
  simp only [List.forall_mem_cons] at names
  obtain ⟨imports, first⟩ := Json.elements_or_none_ok names.1
  obtain ⟨hooks, second⟩ := Json.elements_or_none_ok names.2.1
  simp only [ofDocument, Json.renamed_member_obj, Json.member_obj, bind, Except.bind,
    Json.member_of_part part, first, second]
  exact ⟨_, rfl⟩

namespace Bundle

/-- The members of the contract that a node embeds. -/
def contractFields (node : Json) : Fields := (node.fieldsOrNone.getD "contract").fieldsOrNone

/-- The entry id of the contract of a node, or else its own one. -/
def entryName (node : Json) : Json :=
  ((contractFields node).getD "entryId").orElse (node.fieldsOrNone.getD "entryId")

def isNamed (node : Json) : Bool := (entryName node).truthy

def nodesIn (bundle : Json) : List Json :=
  ((bundle.fieldsOrNone.getD "graph").fieldsOrNone.getD "nodes").itemsOrNone

/-- The nodes of all bundles of a document. -/
def documentNodes (d : Json) : List Json := d.itemsOrNone.flatMap nodesIn

/-- A node that embeds a contract. -/
def HoldsContract (node : Json) : Prop :=
  ∃ fields contract : Fields, node = .obj fields ∧ fields.getD "contract" = .obj contract

theorem head_of_value {v : Json} {head : ContractHead} (read : optionalHead? v = some (some head)) :
    ∃ fields : Fields, v = .obj fields := by
  cases v with
  | obj fields => exact ⟨fields, rfl⟩
  | _ => cases read

theorem holds_contract {node : Json} {n : GraphNode} (read : GraphNode.ofValue? node = some n)
    (valid : (validHead? n).isSome) : HoldsContract node := by
  cases node with
  | obj fields =>
    simp only [GraphNode.ofValue?] at read
    obtain ⟨named, names, read⟩ := Option.bind_eq_some_iff.mp read
    obtain ⟨entryId, -, read⟩ := Option.bind_eq_some_iff.mp read
    obtain ⟨contract, embedded, read⟩ := Option.bind_eq_some_iff.mp read
    have same : named = fields := by
      rw [named?] at names
      split at names
      · exact (Option.some.inj names).symm
      · cases names
    cases read
    obtain ⟨head, there⟩ := Option.isSome_iff_exists.mp valid
    obtain ⟨head, there⟩ : ∃ head, contract = some head :=
      ⟨head, (Option.filter_eq_some_iff.mp there).1⟩
    rw [there] at embedded
    obtain ⟨contract, object⟩ := head_of_value embedded
    exact ⟨fields, contract, rfl, same ▸ object⟩
  | _ => cases read

theorem row_of_contract {node : Json} (holds : HoldsContract node)
    (listable : isNamed node = true → DriftSignature.Listable (contractFields node)) :
    ∃ row, Snapshot.rowOf node = .ok row ∧ row.isSome = isNamed node := by
  obtain ⟨fields, contract, rfl, embedded⟩ := holds
  have own : contractFields (.obj fields) = contract := by
    rw [contractFields]
    exact congrArg Json.fieldsOrNone embedded
  have name : entryName (.obj fields) =
      (contract.getD "entryId").orElse (fields.getD "entryId") := by
    rw [entryName, own]
    rfl
  rw [own, isNamed, name] at listable
  rw [isNamed, name, Snapshot.rowOf, Json.member_obj, embedded]
  simp only [bind, Except.bind, Json.or_else_obj, Json.member_obj]
  generalize contract.getD "entryId" = ownId at listable ⊢
  generalize fields.getD "entryId" = nodeId at listable ⊢
  rw [Json.orElse] at listable ⊢
  by_cases given : ownId.truthy = true
  · simp only [given, if_true, forall_const] at listable ⊢
    obtain ⟨signature, taken⟩ := DriftSignature.of_listable listable
    rw [taken]
    exact ⟨_, rfl, rfl⟩
  · simp only [given] at listable ⊢
    by_cases named : nodeId.truthy = true
    · obtain ⟨signature, taken⟩ := DriftSignature.of_listable (listable named)
      simp only [named, if_true, taken]
      exact ⟨_, rfl, named.symm⟩
    · have unnamed := (Bool.not_eq_true _).mp named
      simp only [unnamed]
      exact ⟨_, rfl, unnamed.symm⟩

/-- A bundle whose graph was read, with a contract in every node. -/
structure Sound (bundle : Json) : Prop where
  nodes : Snapshot.nodesOf bundle = .ok (nodesIn bundle)
  count : (check bundle).nodeCount = (nodesIn bundle).length
  contracts : ∀ node ∈ nodesIn bundle, HoldsContract node

theorem sound_of_check {bundle : Json} (clean : (check bundle).problems = []) :
    Sound bundle := by
  cases bundle with
  | obj fields =>
    rw [check] at clean
    cases graph : Graph.ofValue? (Fields.getD fields "graph") with
    | none => simp [graph] at clean
    | some read =>
      simp only [graph, List.append_eq_nil_iff, List.flatMap_eq_nil_iff] at clean
      have count : (check (.obj fields)).nodeCount = read.nodes.length := by rw [check, graph]
      cases value : Fields.getD fields "graph" with
      | obj members =>
        rw [value, Graph.ofValue?] at graph
        obtain ⟨nodes, listed, graph⟩ := Option.bind_eq_some_iff.mp graph
        obtain ⟨edges, -, graph⟩ := Option.bind_eq_some_iff.mp graph
        cases graph
        cases array : Fields.getD members "nodes" with
        | arr items =>
          rw [array] at listed
          obtain ⟨lengths, each⟩ := each_of_map_some listed
          have inside : nodesIn (.obj fields) = items := by
            simp only [nodesIn, Json.fieldsOrNone, value, array, Json.itemsOrNone]
          refine ⟨?_, by rw [count, inside, lengths], ?_⟩
          · rw [inside, Snapshot.nodesOf, Json.member_obj, value]
            simp only [bind, Except.bind, Json.or_else_obj, Json.member_obj, array]
            exact Json.elements_or_none_arr items
          · rw [inside]
            intro node member
            obtain ⟨n, there, known⟩ := each node member
            refine holds_contract known ?_
            have none := clean.2 n there
            rw [nodeProblems] at none
            split at none
            · assumption
            · cases none
        | _ =>
          rw [array] at listed
          cases listed
      | _ =>
        rw [value] at graph
        cases graph
  | _ => cases clean

theorem rows_of_sound {bundle : Json} (sound : Sound bundle)
    (listable : ∀ node ∈ nodesIn bundle, isNamed node = true →
      DriftSignature.Listable (contractFields node)) :
    ∃ rows, Snapshot.rowsOf bundle = .ok rows ∧
      rows.countP Option.isSome = (nodesIn bundle).countP isNamed := by
  rw [Snapshot.rowsOf, sound.nodes]
  have each := sound.contracts
  generalize nodesIn bundle = nodes at each listable
  change ∃ rows, nodes.mapM Snapshot.rowOf = .ok rows ∧ _
  induction nodes with
  | nil => exact ⟨[], rfl, rfl⟩
  | cons node rest ih =>
    rw [List.forall_mem_cons] at each listable
    obtain ⟨row, first, named⟩ := row_of_contract each.1 listable.1
    obtain ⟨rows, later, counted⟩ := ih each.2 listable.2
    refine ⟨row :: rows, by rw [List.mapM_cons, first, later]; rfl, ?_⟩
    rw [List.countP_cons, List.countP_cons, counted, named]

theorem rows_of_bundles {bundles : List Json} (sound : ∀ b ∈ bundles, Sound b)
    (listable : ∀ node ∈ bundles.flatMap nodesIn, isNamed node = true →
      DriftSignature.Listable (contractFields node)) :
    ∃ rows, bundles.mapM Snapshot.rowsOf = .ok rows ∧
      rows.flatten.countP Option.isSome = (bundles.flatMap nodesIn).countP isNamed := by
  induction bundles with
  | nil => exact ⟨[], rfl, rfl⟩
  | cons bundle rest ih =>
    rw [List.forall_mem_cons] at sound
    rw [List.flatMap_cons, List.forall_mem_append] at listable
    obtain ⟨rows, first, counted⟩ := rows_of_sound sound.1 listable.1
    obtain ⟨others, later, counted'⟩ := ih sound.2 listable.2
    refine ⟨rows :: others, by rw [List.mapM_cons, first, later]; rfl, ?_⟩
    rw [List.flatten_cons, List.flatMap_cons, List.countP_append, List.countP_append, counted,
      counted']

end Bundle

namespace ValidationReport

theorem errors_of_bundles_iff (number : Nat) (bundles : List Json) :
    (ofBundles number bundles).errors = [] ↔ ∀ b ∈ bundles, (Bundle.check b).problems = [] := by
  induction bundles generalizing number with
  | nil => simp [ofBundles]
  | cons bundle rest ih => simp [ofBundles, append, ofFindings, ih]

theorem node_count_of_bundles (number : Nat) (bundles : List Json) :
    (ofBundles number bundles).nodeCount =
      (bundles.map fun b => (Bundle.check b).nodeCount).sum := by
  induction bundles generalizing number with
  | nil => rfl
  | cons bundle rest ih => simp [ofBundles, append, ofFindings, ih]

theorem bundles_of_ok {d : Json} (valid : (validate d).ok = true) :
    ∃ bundles, d = .arr bundles ∧ (∀ b ∈ bundles, (Bundle.check b).problems = []) ∧
      (validate d).nodeCount = (bundles.map fun b => (Bundle.check b).nodeCount).sum := by
  cases d with
  | arr bundles =>
    refine ⟨bundles, rfl, ?_, node_count_of_bundles 1 bundles⟩
    exact (errors_of_bundles_iff 1 bundles).mp (List.isEmpty_iff.mp valid)
  | _ => cases valid

end ValidationReport

open ContractGraph.Bundle

/-- Of a document without errors all nodes are counted. If the contracts of its named nodes list their
imports and hooks, a snapshot of it can be taken. The entries and collisions of this are as many as
the named nodes, so they are as many as all nodes exactly when every node has an entry id. -/
theorem named_nodes_indexed {d : Json} (valid : (validate d).ok = true) :
    (validate d).nodeCount = (documentNodes d).length ∧
      ((∀ node ∈ documentNodes d, isNamed node = true →
          DriftSignature.Listable (contractFields node)) →
        ∃ s, (Snapshot.ofBundles d).outcome = .ok s ∧
          s.entries.size + s.collisions.length = (documentNodes d).countP isNamed ∧
          (s.entries.size + s.collisions.length = (validate d).nodeCount ↔
            ∀ node ∈ documentNodes d, isNamed node = true)) := by
  obtain ⟨bundles, rfl, clean, total⟩ := ValidationReport.bundles_of_ok valid
  have sound := fun b member => sound_of_check (clean b member)
  have count : (validate (.arr bundles)).nodeCount = (documentNodes (.arr bundles)).length := by
    rw [total, documentNodes, List.length_flatMap]
    exact congrArg List.sum (List.map_congr_left fun b member => (sound b member).count)
  refine ⟨count, ?_⟩
  intro listable
  obtain ⟨rows, read, counted⟩ := rows_of_bundles sound listable
  have taken : (rows.flatten.foldl Snapshot.putRow {}).taken =
      (documentNodes (.arr bundles)).countP isNamed := by
    rw [Snapshot.taken_rows, counted]
    exact Nat.zero_add _
  refine ⟨_, Snapshot.of_bundles_ok_iff.mpr ⟨bundles, rows, rfl, read, rfl⟩, taken, ?_⟩
  rw [count, ← List.countP_eq_length]
  exact ⟨fun same => taken ▸ same, fun same => taken.trans same⟩

def checkedBundle (nodes : List Json) : Json := .record [
  ("type", .str "LogicStampBundle"), ("schemaVersion", .str "0.1"), ("entryId", .str "src/A.tsx"),
  ("graph", .record [("nodes", .arr nodes), ("edges", .arr [])]),
  ("meta", .record [("missing", .arr [])])]

/-- Two spellings of one id, a composition under the older name, and a node whose own id stands under
the name of the field. -/
def respelled : Json := .arr [
  checkedBundle [
    .record [("entryId", .str "src/A.tsx"), ("contract", .record [("type", .str "UIFContract"),
      ("version", .record [("imports", .strings ["react"])])])],
    .record [("entry_id", .str "src/B.tsx"), ("contract", .record [("type", .str "UIFContract"),
      ("composition", .int 1)])]],
  checkedBundle [
    .record [("entryId", .str "src/C.tsx"), ("contract", .record [("type", .str "UIFContract"),
      ("entryId", .str "SRC/a.tsx"), ("composition", .null)])]]]

theorem named_nodes_indexed_of_respelled :
    (validate respelled).ok = true ∧
      (∀ node ∈ documentNodes respelled, isNamed node = true →
        DriftSignature.Listable (contractFields node)) ∧
      (validate respelled).nodeCount = 3 ∧
      ∃ s, (Snapshot.ofBundles respelled).outcome = .ok s ∧
        s.entries.size + s.collisions.length = 2 := by
  have valid : (validate respelled).ok = true := by decide +kernel
  have listable : ∀ node ∈ documentNodes respelled, isNamed node = true →
      DriftSignature.Listable (contractFields node) := by decide +kernel
  obtain ⟨count, indexed⟩ := named_nodes_indexed valid
  obtain ⟨s, taken, total, -⟩ := indexed listable
  exact ⟨valid, listable, count, s, taken, total⟩

/-- A node that has an empty entry id. -/
def namedEmpty : Json := .arr [checkedBundle [
  .record [("entryId", .str ""), ("contract", .record [("type", .str "UIFContract")])]]]

/-- A contract whose composition is an array. -/
def composedOfArray : Json := .arr [checkedBundle [
  .record [("entryId", .str "a.tsx"), ("contract", .record [("type", .str "UIFContract"),
    ("composition", .strings ["x"])])]]]

/-- A document without errors may have a node that no snapshot has, and there may be no snapshot of it
at all. -/
theorem valid_not_indexed :
    ((validate namedEmpty).ok = true ∧ (validate namedEmpty).nodeCount = 1 ∧
      ∃ s, (Snapshot.ofBundles namedEmpty).outcome = .ok s ∧
        s.entries.size + s.collisions.length = 0) ∧
    (validate composedOfArray).ok = true ∧
      (Snapshot.ofBundles composedOfArray).outcome = .error (.shape (.noAttribute .arr "get")) := by
  refine ⟨⟨by decide +kernel, by decide +kernel, _, rfl, rfl⟩, by decide +kernel, rfl⟩

end ContractGraph
