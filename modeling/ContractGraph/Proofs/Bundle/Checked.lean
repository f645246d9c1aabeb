import ContractGraph.Proofs.Bundle.Grammar
import ContractGraph.Proofs.Bundle.Packed
import ContractGraph.Proofs.Digest.Form
import ContractGraph.Proofs.Json.Members

/-!
# Checks of packed bundles

What packing writes itself is always well formed: the header, the hash, the edges, and each record
of something missing, whatever that leaves out. So a packed bundle can only fail the checks for a
contract that it embeds, and its nodes and edges are counted whenever the head of every embedded
contract can be read.
-/

namespace ContractGraph

set_option autoImplicit false

/-- Nothing is visited from an entry that is not found. -/
theorem Collection.Scope.visited_of_absent {s : Collection.Scope} {id : String}
    (absent : s.resolver.lookup id = none) {reached : Bool} {below level : Nat}
    {w : Collection.Walk} {dropped? : Option Nat}
    (done : walkLevels s reached below level [id] {} = .ok (w, dropped?)) : w.visited = [] := by
  rcases Nat.eq_zero_or_pos s.room with full | space
  · have cut : ∀ last, walkLevel s level last [id] {} [] = .ok ({}, .cut 1) := by
      intro last
      simp only [walkLevel, absent, Walk.hasVisited, List.any_nil, Bool.false_eq_true, if_false,
        full, Nat.zero_le, if_true]
      rfl
    cases below with
    | zero =>
      rw [walkLevels, cut] at done
      cases done
      rfl
    | succ below =>
      rw [walkLevels, cut] at done
      cases done
      rfl
  · rw [walk_levels_absent absent space] at done
    cases done
    rfl

/-- A collection that visits something found its entry, so the entry has a name. -/
theorem Manifest.Built.entry_named {contracts : List Contract} {m : Manifest}
    (b : Built contracts m) {entryId : String} {limits : Limits} {c : Collection}
    (collected : (m.collect entryId limits).outcome = .ok c) (visits : c.visitedIds ≠ []) :
    entryId ≠ "" := by
  rintro rfl
  obtain ⟨w, dropped?, run, rfl⟩ := collect_walk collected
  rw [Collection.walk, b.resolver_eq] at run
  have unvisited := Collection.Scope.visited_of_absent (s := m.scope _) (by rfl) run
  exact visits (by rw [Collection.visitedIds, unvisited]; rfl)

section Records

variable {members : List (String × Json)} {value : Json → Prop} {name : String} {v : Json}

theorem Json.is_record_record {P : Fields → Prop} :
    IsRecord P (record members) ↔ P (members.map fun f => (.str f.1, f.2)) := by
  have keys : ∀ f ∈ members.map fun f => (Key.str f.1, f.2), ∃ name, f.1 = .str name := by
    intro f member
    obtain ⟨own, -, rfl⟩ := List.mem_map.mp member
    exact ⟨own.1, rfl⟩
  rw [IsRecord, record, is_object_obj]
  exact and_iff_right keys

theorem required_of_record (there : members.lookup name = some v) :
    Required value (Fields.get? (members.map fun f => (.str f.1, f.2)) name) ↔ value v := by
  rw [Fields.get_record, there]
  simp [Required]

theorem optional_of_record (there : members.lookup name = some v) :
    Optional value (Fields.get? (members.map fun f => (.str f.1, f.2)) name) ↔ value v := by
  rw [Fields.get_record, there]
  simp [Optional]

theorem Fields.aliased_record (names : String × String) :
    Fields.aliased (members.map fun f => (.str f.1, f.2)) names =
      (members.lookup names.1).or (members.lookup names.2) := by
  rw [aliased, get_record, get_record]

end Records

namespace Bundle

open Json

/-- The record of something missing under a name is well formed, whatever it leaves out. -/
theorem missing_members {d : MissingDependency} {name : String} (named : d.name = .str name) :
    IsObject MissingMembers d.toValue := by
  rcases d with ⟨_, reason, referrer, packageName, packageVersion⟩
  cases named
  rw [MissingDependency.toValue, record, is_object_obj]
  constructor
  · exact (required_of_record rfl).mpr ⟨name, rfl⟩
  · exact (required_of_record rfl).mpr ⟨reason.text, rfl⟩
  · intro names known v there
    rw [Fields.aliased_record] at there
    refine .inr ?_
    simp only [missingTexts, List.mem_cons, List.not_mem_nil, or_false] at known
    rcases known with rfl | rfl | rfl <;> cases referrer <;> cases packageName <;>
      cases packageVersion <;> cases there <;> exact ⟨_, rfl⟩

theorem node_members_iff {n : PackedNode} :
    IsRecord NodeMembers n.toValue ↔ IsRecord ContractMembers n.contract := by
  rw [PackedNode.toValue, is_record_record]
  constructor
  · intro members
    exact (required_of_record rfl).mp members.contract
  · intro contract
    constructor
    · rw [Fields.aliased_record]
      exact ⟨_, rfl, n.key, rfl⟩
    · exact (required_of_record rfl).mpr contract

/-- What packing sees to itself: the entry and everything missing have names, and the hash has the
form of one. -/
structure WellPacked (b : Bundle) : Prop where
  entry_named : b.entryId ≠ ""
  missing_named : ∀ d ∈ b.missing, ∃ name, d.name = .str name
  hash_form : Hash.isBundleHash b.bundleHash = true

section Packing

variable {now : String} {m : Manifest} {listed : List Contract} {contracts : Table String Contract}
  {options : PackOptions} {t : FileTree} {cache : VersionCache} {entryId : String} {b : Bundle}

theorem hash_has_form {nodes : List HashedNode} {depth version : Json} {bundleHash : String}
    (hashed : hash nodes depth version = .ok bundleHash) : Hash.isBundleHash bundleHash = true := by
  obtain ⟨text, -, rfl⟩ := ok_of_map hashed
  exact Hash.of_text_has_form (by decide) (by decide) text

theorem well_packed (built : m.Built listed)
    (packed : (pack now t cache m contracts entryId options).2.outcome = .ok b) :
    b.WellPacked := by
  obtain ⟨key, limits, c, versioned, -, -, collected, same, done⟩ := pack_parts packed
  obtain ⟨edges, bundleHash, among, hashed, rfl⟩ := assemble_parts done
  obtain ⟨-, filled⟩ := contracts_of_assemble done
  constructor
  case entry_named =>
    refine built.entry_named collected ?_
    intro unvisited
    rw [Collection.visited_ids_congr same, unvisited] at filled
    exact filled rfl
  case missing_named =>
    have spans : (assembled now contracts options limits key versioned edges bundleHash).Spans m
        contracts options c := assembled_spans built collected same among bundleHash
    obtain ⟨names, texts, -⟩ := spans.missing_apart
    intro d member
    have there := texts ▸ List.mem_map_of_mem member
    obtain ⟨name, -, equal⟩ := List.mem_map.mp there
    exact ⟨name, equal.symm⟩
  case hash_form => exact hash_has_form hashed

end Packing

section Checking

variable {b : Bundle}

/-- The graph of a bundle in its document. -/
def graphValue (b : Bundle) : Json := .record [
  ("nodes", .arr (b.nodes.map PackedNode.toValue)),
  ("edges", .arr (b.edges.map fun e => .strings [e.1, e.2]))]

theorem edges_written : ∀ v ∈ b.edges.map fun e => Json.strings [e.1, e.2], IsEdge v := by
  refine List.forall_mem_map.mpr ?_
  intro e member
  exact ⟨e.1, e.2, rfl⟩

theorem graph_members_iff :
    IsObject GraphMembers b.graphValue ↔ ∀ n ∈ b.nodes, IsRecord ContractMembers n.contract := by
  rw [graphValue, record, is_object_obj]
  constructor
  · intro members n listed
    have nodes := is_array_arr.mp ((required_of_record rfl).mp members.nodes)
    exact node_members_iff.mp (nodes _ (List.mem_map_of_mem listed))
  · intro contracts
    constructor
    · refine (required_of_record rfl).mpr (is_array_arr.mpr (List.forall_mem_map.mpr ?_))
      intro n listed
      exact node_members_iff.mpr (contracts n listed)
    · exact (required_of_record rfl).mpr (is_array_arr.mpr edges_written)

theorem WellPacked.meta_members (well : b.WellPacked) : IsRecord MetaMembers (.record [
    ("missing", .arr (b.missing.map MissingDependency.toValue)),
    ("source", .str source),
    ("truncated", .bool b.truncated)]) := by
  rw [is_record_record]
  constructor
  · refine (required_of_record rfl).mpr (is_array_arr.mpr (List.forall_mem_map.mpr ?_))
    intro d member
    obtain ⟨name, named⟩ := well.missing_named d member
    exact missing_members named
  · exact (optional_of_record rfl).mpr (.inr ⟨source, rfl⟩)
  · refine (optional_of_record rfl).mpr (lax_bool_iff.mp ?_)
    cases b.truncated <;> rfl

theorem WellPacked.bundle_members_iff (well : b.WellPacked) :
    IsObject BundleMembers b.toDocument ↔ ∀ n ∈ b.nodes, IsRecord ContractMembers n.contract := by
  rw [← graph_members_iff, toDocument, record, is_object_obj]
  constructor
  · intro members
    exact (required_of_record rfl).mp members.graph
  · intro graph
    constructor
    · exact (required_of_record rfl).mpr rfl
    · exact (required_of_record rfl).mpr rfl
    · refine (required_of_record rfl).mpr ?_
      simpa [truthy] using well.entry_named
    · exact (required_of_record rfl).mpr graph
    · exact (required_of_record rfl).mpr well.meta_members

theorem node_read {n : PackedNode} (head : IsRecord HeadMembers n.contract) :
    ∃ node, GraphNode.ofValue? n.toValue = some node := by
  obtain ⟨fields, object, keys, members⟩ := head
  obtain ⟨head, read⟩ := head_read_iff.mpr members
  refine ⟨⟨n.key, some head⟩, node_eq_some_iff.mpr ⟨?_, ?_, ?_⟩⟩
  · simp
  · rw [Fields.aliased_record]
    rfl
  · exact optional_head_iff.mpr ⟨fields, object, keys, read⟩

/-- The graph is read with all its nodes and edges when the heads of its contracts can be read. -/
theorem graph_read (heads : ∀ n ∈ b.nodes, IsRecord HeadMembers n.contract) :
    ∃ g, Graph.ofValue? b.graphValue = some g ∧ g.nodes.length = b.nodes.length ∧
      g.edges.length = b.edges.length := by
  obtain ⟨nodes, listed, -⟩ := exists_map_some_iff.mpr <| List.forall_mem_map.mpr <| by
    intro n member
    obtain ⟨node, read⟩ := node_read (heads n member)
    exact ⟨node, read, trivial⟩
  obtain ⟨edges, paired, -⟩ := exists_map_some_iff.mpr <| by
    intro v member
    obtain ⟨e, read⟩ := edge_read_iff.mpr (edges_written v member)
    exact ⟨e, read, trivial⟩
  refine ⟨⟨nodes, edges⟩, ?_, ?_, ?_⟩
  · exact Option.bind_eq_some_iff.mpr ⟨nodes, listed,
      Option.bind_eq_some_iff.mpr ⟨edges, paired, rfl⟩⟩
  · simpa using (each_of_map_some listed).1.symm
  · simpa using (each_of_map_some paired).1.symm

theorem counts_of_check {g : Graph} (read : Graph.ofValue? b.graphValue = some g) :
    (check b.toDocument).nodeCount = g.nodes.length ∧
      (check b.toDocument).edgeCount = g.edges.length := by
  have there : ∀ fields, b.toDocument = .obj fields → Fields.getD fields "graph" = b.graphValue := by
    rintro _ ⟨⟩
    rfl
  rw [toDocument, record, check, there _ rfl, read]
  exact ⟨rfl, rfl⟩

theorem concern_of_node {n : GraphNode} {concern : Concern} (raised : concern ∈ nodeConcerns n) :
    concern ≠ .bundleHashFormat := by
  rintro rfl
  unfold nodeConcerns headConcerns at raised
  split at raised
  · simp at raised
  · cases raised

theorem WellPacked.hash_unnoticed (well : b.WellPacked) :
    .bundleHashFormat ∉ (check b.toDocument).concerns := by
  have formed : hashConcerns (.str b.bundleHash) = [] := by simp [hashConcerns, well.hash_form]
  have there : ∀ fields, b.toDocument = .obj fields →
      Fields.getD fields "bundleHash" = .str b.bundleHash := by
    rintro _ ⟨⟩
    rfl
  rw [toDocument, record, check, there _ rfl, formed]
  split
  · exact List.not_mem_nil
  · rw [List.append_nil]
    intro raised
    obtain ⟨n, -, raised⟩ := List.mem_flatMap.mp raised
    exact concern_of_node raised rfl

end Checking

/-- A packed bundle passes the checks exactly when every contract that it embeds is one by the
grammar. Its nodes and edges are counted when every embedded contract has texts where the grammar
asks for texts, and its hash raises no concern. -/
theorem packed_passes_checks {now : String} {m : Manifest} {listed : List Contract} {clock : String}
    {hasher : Hasher} {withIndex : Bool} {contracts : Table String Contract} {options : PackOptions}
    {t : FileTree} {cache : VersionCache} {entryId : String} {b : Bundle}
    (built : (Manifest.build clock hasher withIndex listed).outcome = .ok m)
    (packed : (pack now t cache m contracts entryId options).2.outcome = .ok b) :
    ((validate (.arr [b.toDocument])).ok = true ↔
        ∀ n ∈ b.nodes, IsRecord ContractMembers n.contract) ∧
      ((∀ n ∈ b.nodes, IsRecord HeadMembers n.contract) →
        (validate (.arr [b.toDocument])).nodeCount = b.nodes.length ∧
          (validate (.arr [b.toDocument])).edgeCount = b.edges.length) ∧
      ∀ w ∈ (validate (.arr [b.toDocument])).warnings, w.concern ≠ .bundleHashFormat := by
  have well := well_packed (Manifest.build_built built) packed
  refine ⟨?_, ?_, ?_⟩
  · rw [Bundle.validates_iff, is_array_arr, List.forall_mem_singleton, problems_nil_iff]
    exact well.bundle_members_iff
  · intro heads
    obtain ⟨g, read, nodes, edges⟩ := graph_read heads
    obtain ⟨nodeCount, edgeCount⟩ := counts_of_check read
    exact ⟨nodeCount.trans nodes, edgeCount.trans edges⟩
  · intro w raised same
    simp only [validate, ValidationReport.ofBundles, ValidationReport.append,
      ValidationReport.ofFindings, List.append_nil] at raised
    obtain ⟨concern, there, rfl⟩ := List.mem_map.mp raised
    exact well.hash_unnoticed (same ▸ there)

/-- A contract with its own document. -/
def documented (c : Contract) : Contract := { c with source := c.toDocument }

/-- The chain packed with the documents of its contracts. -/
theorem packed_passes_checks_of_chain :
    ∃ m b, (Manifest.build "" (.constant (.str "s") (.str "g")) false
        Manifest.chain).outcome = .ok m ∧
      (pack "" .empty {} m (tableOf (Manifest.chain.map documented)) "App"
        ⟨.ok (.counts 2 9 (by decide)), .nowhere, false, false⟩).2.outcome = .ok b ∧
      ((validate (.arr [b.toDocument])).ok = true ↔
        ∀ n ∈ b.nodes, IsRecord ContractMembers n.contract) ∧
      ((∀ n ∈ b.nodes, IsRecord HeadMembers n.contract) →
        (validate (.arr [b.toDocument])).nodeCount = b.nodes.length ∧
          (validate (.arr [b.toDocument])).edgeCount = b.edges.length) ∧
      ∀ w ∈ (validate (.arr [b.toDocument])).warnings, w.concern ≠ .bundleHashFormat := by
  have runs : ((Manifest.build "" (.constant (.str "s") (.str "g")) false
      Manifest.chain).outcome.bind fun m => (entryKey m "App").outcome.bind fun key =>
        (m.collect key (.counts 2 9 (by decide))).outcome).map (·.visitedIds) =
      .ok ["src/App.tsx", "src/Page.tsx", "src/Row.tsx"] := by decide +kernel
  obtain ⟨c, done, visited⟩ := ok_of_map runs
  obtain ⟨m, built, done⟩ := ok_of_bind done
  obtain ⟨key, entry, collected⟩ := ok_of_bind done
  have filled : packedNodes (tableOf (Manifest.chain.map documented)) c.visitedIds ≠ [] := by
    rw [visited]
    decide +kernel
  have ordered : ∀ n ∈ packedNodes (tableOf (Manifest.chain.map documented)) c.visitedIds,
      n.hashed.semanticHash.stableFault? (Json.maxStableNesting - 3) = none := by
    rw [visited]
    decide +kernel
  have short : ∀ n ∈ packedNodes (tableOf (Manifest.chain.map documented)) c.visitedIds,
      n.hashed.semanticHash.stabilize.digits ≤ Json.maxDigits := by
    rw [visited]
    decide +kernel
  have lenient : false = true →
      unpacked (tableOf (Manifest.chain.map documented)) c.visitedIds = [] := by simp
  obtain ⟨b, packed⟩ : ∃ b, (pack "" .empty {} m (tableOf (Manifest.chain.map documented)) "App"
      ⟨.ok (.counts 2 9 (by decide)), .nowhere, false, false⟩).2.outcome = .ok b :=
    pack_ok (Manifest.build_built built) entry rfl collected lenient filled
      (fun n member => ⟨ordered n member, short n member⟩) (by decide)
  exact ⟨m, b, built, packed, packed_passes_checks built packed⟩

end Bundle

end ContractGraph
