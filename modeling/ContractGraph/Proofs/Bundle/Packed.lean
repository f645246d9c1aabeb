import ContractGraph.Proofs.Bundle.Edges
import ContractGraph.Proofs.Collection.Account
import ContractGraph.Proofs.Collection.Bounds
import ContractGraph.Proofs.Collection.Versions
import ContractGraph.Proofs.Json.Digits

/-!
# Packed bundles

A bundle holds the visited keys that have a contract, in ascending order, and all edges of the
manifest between them, each once and in lexicographic order. What is missing is what the collection
misses and, unless that is allowed, the visited keys without a contract.
-/

namespace ContractGraph

set_option autoImplicit false

namespace Bundle

section Nodes

variable (contracts : Table String Contract) (visited : List String)

theorem keys_of_packed_nodes :
    (packedNodes contracts visited).map (·.key) = visited.filter (contracts.contains ·) := by
  induction visited with
  | nil => rfl
  | cons key rest ih =>
    rw [packedNodes] at ih ⊢
    rcases here : contracts.get? key with _ | c
    · rw [List.filterMap_cons_none (by rw [here]; rfl), ih, List.filter_cons_of_neg]
      rw [contracts.contains_eq, here]
      simp
    · rw [List.filterMap_cons_some (by rw [here]; rfl), List.map_cons, ih,
        List.filter_cons_of_pos]
      rw [contracts.contains_eq, here]
      rfl

/-- The nodes of a bundle that visits the given keys. -/
def nodesOf : List PackedNode := Text.sortedOn (·.key) (packedNodes contracts visited)

def nodeKeys : List String := Text.sorted (visited.filter (contracts.contains ·))

theorem keys_of_nodes : (nodesOf contracts visited).map (·.key) = nodeKeys contracts visited := by
  rw [nodesOf, Text.map_sorted_on, keys_of_packed_nodes, nodeKeys]

variable {contracts visited}

theorem mem_node_keys_iff {key : String} :
    key ∈ nodeKeys contracts visited ↔ key ∈ visited ∧ ∃ c, contracts.get? key = some c := by
  rw [nodeKeys, Text.mem_sorted, List.mem_filter, contracts.contains_eq,
    Option.isSome_iff_exists]

theorem node_keys_ascend (distinct : visited.Nodup) :
    (nodeKeys contracts visited).Pairwise (· < ·) :=
  Text.sorted_ascending (distinct.filter _)

theorem packed_nodes_nil_iff :
    packedNodes contracts visited = [] ↔ ∀ key ∈ visited, contracts.get? key = none := by
  rw [packedNodes, List.filterMap_eq_nil_iff]
  simp only [Option.map_eq_none_iff]

theorem packed_nodes_ne_nil {key : String} {c : Contract} (visit : key ∈ visited)
    (given : contracts.get? key = some c) : packedNodes contracts visited ≠ [] := by
  intro empty
  have none := packed_nodes_nil_iff.mp empty key visit
  rw [given] at none
  cases none

theorem unpacked_eq (contracts : Table String Contract) (visited : List String) :
    unpacked contracts visited = visited.filter fun key => (contracts.get? key).isNone := by
  rw [unpacked]
  apply List.filter_congr
  intro key _
  rw [contracts.contains_eq]
  exact Option.not_isSome _

theorem mem_unpacked_iff {key : String} :
    key ∈ unpacked contracts visited ↔ key ∈ visited ∧ contracts.get? key = none := by
  rw [unpacked_eq, List.mem_filter, Option.isNone_iff_eq_none]

theorem unpacked_nil_iff :
    unpacked contracts visited = [] ↔ ∀ key ∈ visited, ∃ c, contracts.get? key = some c := by
  rw [unpacked_eq, List.filter_eq_nil_iff]
  simp only [Option.isNone_iff_eq_none, ← Option.ne_none_iff_exists']

end Nodes

variable {now : String} {m : Manifest} {contracts : Table String Contract} {options : PackOptions}
  {limits : Limits} {key : String} {c : Collection} {b : Bundle}

/-- The visited keys that are reported to have no contract: none when that is allowed. -/
def reportedIds (contracts : Table String Contract) (options : PackOptions) (c : Collection) :
    List String :=
  if options.allowMissing then [] else unpacked contracts c.visitedIds

def notLoaded (id : String) : MissingDependency where
  name := .str id
  reason := .contractNotLoaded

/-- The bundle of a collection with its edges and its hash. -/
def assembled (now : String) (contracts : Table String Contract) (options : PackOptions)
    (limits : Limits) (key : String) (c : Collection) (edges : List (String × String))
    (bundleHash : String) : Bundle where
  entryId := key
  depth := limits.depth
  createdAt := now
  bundleHash := bundleHash
  nodes := nodesOf contracts c.visitedIds
  edges := edges
  missing := c.missing ++ (reportedIds contracts options c).map notLoaded
  truncated := c.truncated

theorem assemble_refused {id : String} (strict : options.strict = true)
    (first : (unpacked contracts c.visitedIds).head? = some id) :
    (assemble now m contracts options limits key c).outcome = .error (.missingContract id) := by
  obtain ⟨rest, absent⟩ := List.head?_eq_some_iff.mp first
  simp only [assemble, strict, absent]
  rfl

theorem assemble_empty (strict : options.strict = true → unpacked contracts c.visitedIds = [])
    (empty : packedNodes contracts c.visitedIds = []) :
    (assemble now m contracts options limits key c).outcome = .error (.missingContract key) := by
  simp only [assemble, empty]
  split
  · next id rest strictly absent =>
    rw [strict strictly] at absent
    cases absent
  · rfl

/-- Packing that is strict is refused when a contract is not there, and no bundle is without one. -/
theorem contracts_of_assemble
    (done : (assemble now m contracts options limits key c).outcome = .ok b) :
    (options.strict = true → unpacked contracts c.visitedIds = []) ∧
      packedNodes contracts c.visitedIds ≠ [] := by
  have passed : options.strict = true → unpacked contracts c.visitedIds = [] := by
    intro strict
    cases first : (unpacked contracts c.visitedIds).head? with
    | none => exact List.head?_eq_none_iff.mp first
    | some id =>
      rw [assemble_refused strict first] at done
      cases done
  refine ⟨passed, ?_⟩
  intro empty
  rw [assemble_empty passed empty] at done
  cases done

theorem outcome_assemble
    (strict : options.strict = true → unpacked contracts c.visitedIds = [])
    (filled : packedNodes contracts c.visitedIds ≠ []) :
    (assemble now m contracts options limits key c).outcome =
      ((edgesAmong m (nodeKeys contracts c.visitedIds)).bind fun edges =>
        (hash ((nodesOf contracts c.visitedIds).map PackedNode.hashed) limits.depth.toValue
          (.str schemaVersion)).map
            (assembled now contracts options limits key c edges)).mapError .shape := by
  have nodes : Text.sortedOn (·.key) (packedNodes contracts c.visitedIds) =
      nodesOf contracts c.visitedIds := rfl
  have reported : (if options.allowMissing then [] else (unpacked contracts c.visitedIds).map
        fun id => { name := .str id, reason := .contractNotLoaded : MissingDependency }) =
      (reportedIds contracts options c).map notLoaded := by
    rw [reportedIds]
    split
    · rfl
    · rfl
  unfold assemble
  simp only [nodes, keys_of_nodes, reported]
  split
  · next id rest strictly absent =>
    rw [strict strictly] at absent
    cases absent
  · rw [if_neg (by simpa using filled), Logged.outcome_bind]
    cases edgesAmong m (nodeKeys contracts c.visitedIds) with
    | error fault => rfl
    | ok edges =>
      change (ite (c.truncated = true) _ _ : Logged Bundle).outcome = _
      cases hash ((nodesOf contracts c.visitedIds).map PackedNode.hashed) limits.depth.toValue
          (.str schemaVersion) with
      | error fault =>
        split
        · rfl
        · rfl
      | ok bundleHash =>
        split
        · rfl
        · rfl

theorem assemble_parts
    (done : (assemble now m contracts options limits key c).outcome = .ok b) :
    ∃ edges bundleHash, edgesAmong m (nodeKeys contracts c.visitedIds) = .ok edges ∧
      hash ((nodesOf contracts c.visitedIds).map PackedNode.hashed) limits.depth.toValue
        (.str schemaVersion) = .ok bundleHash ∧
      b = assembled now contracts options limits key c edges bundleHash := by
  obtain ⟨strict, filled⟩ := contracts_of_assemble done
  rw [outcome_assemble strict filled] at done
  rcases among : edgesAmong m (nodeKeys contracts c.visitedIds) with fault | edges
  · rw [among] at done
    cases done
  · rw [among] at done
    rcases hashed : hash ((nodesOf contracts c.visitedIds).map PackedNode.hashed)
        limits.depth.toValue (.str schemaVersion) with fault | bundleHash
    · simp only [Except.bind, hashed] at done
      cases done
    · simp only [Except.bind, hashed] at done
      cases done
      exact ⟨edges, bundleHash, rfl, rfl, rfl⟩

theorem entry_key_ok_iff {entryId : String} :
    (entryKey m entryId).outcome = .ok key ↔
      ∃ r, m.resolver = .ok r ∧ r.resolve (EntryId.normalize entryId) none = some key := by
  constructor
  · intro found
    obtain ⟨r, resolver, found⟩ := Logged.ok_of_bind found
    refine ⟨r, Logged.ok_of_lift resolver, ?_⟩
    split at found
    · next other means =>
      cases found
      exact means
    · cases found
  · intro given
    rcases given with ⟨r, resolver, means⟩
    rw [entryKey, resolver, Logged.outcome_bind, Logged.outcome_lift]
    simp only [Except.mapError, Except.bind, means]
    rfl

/-- A bundle that was packed is assembled from a collection of the key that the entry means, in
which only versions differ from the one without them. -/
theorem pack_parts {t : FileTree} {cache : VersionCache} {entryId : String}
    (done : (pack now t cache m contracts entryId options).2.outcome = .ok b) :
    ∃ key limits c versioned, (entryKey m entryId).outcome = .ok key ∧
      options.limits = .ok limits ∧ (m.collect key limits).outcome = .ok c ∧
      versioned.unversioned = c.unversioned ∧
      (assemble now m contracts options limits key versioned).outcome = .ok b := by
  rw [pack, packFrom] at done
  split at done
  · cases done
  · cases done
  · next key limits found given =>
    obtain ⟨versioned, collected, done⟩ := Logged.ok_of_bind done
    obtain ⟨c, plain, same⟩ := Collection.of_with_versions collected
    exact ⟨key, limits, c, versioned, found, given, plain, same, done⟩

/-- Whether the hash of a bundle can be taken of a node: three levels stand above what its contract
has for its semantic hash. -/
def PackedNode.Stable (n : PackedNode) : Prop :=
  Json.Stable (Json.maxStableNesting - 3) n.hashed.semanticHash

theorem node_stable {n : PackedNode} (stable : n.Stable) :
    Json.Stable (Json.maxStableNesting - 3 + 1) n.hashed.toValue := by
  apply Json.Stable.record
  intro f part
  rcases List.mem_cons.mp part with rfl | part
  · exact .str n.key
  · rw [List.mem_singleton.mp part]
    exact stable

theorem bound_stable {b : Bound} (written : b.toValue.digits ≤ Json.maxDigits) (levels : Nat) :
    Json.Stable levels b.toValue := by
  cases b with
  | whole n => exact ⟨rfl, written⟩
  | truth b => exact ⟨rfl, written⟩
  | binary x => exact ⟨rfl, written⟩

theorem hash_ok {nodes : List PackedNode} (stable : ∀ n ∈ nodes, n.Stable) {depth : Bound}
    (written : depth.toValue.digits ≤ Json.maxDigits) (version : String) :
    ∃ bundleHash, hash (nodes.map PackedNode.hashed) depth.toValue (.str version) =
      .ok bundleHash := by
  have ids : ∀ n ∈ nodes.map PackedNode.hashed, ∃ id, n.entryId = .str id := by
    intro n member
    obtain ⟨node, -, rfl⟩ := List.mem_map.mp member
    exact ⟨node.key, rfl⟩
  have values : ∀ v ∈ ((nodes.map PackedNode.hashed).mergeSort fun a b =>
      Json.notAfter a.entryId b.entryId).map HashedNode.toValue,
      Json.Stable (Json.maxStableNesting - 3 + 1) v := by
    intro v member
    obtain ⟨n, here, rfl⟩ := List.mem_map.mp member
    obtain ⟨node, listed, rfl⟩ := List.mem_map.mp (List.mem_mergeSort.mp here)
    exact node_stable (stable node listed)
  have whole : Json.Stable (Json.maxStableNesting - 3 + 1 + 1 + 1) (.record [
      ("schemaVersion", .str version), ("depth", depth.toValue),
      ("nodes", .arr (((nodes.map PackedNode.hashed).mergeSort fun a b =>
        Json.notAfter a.entryId b.entryId).map HashedNode.toValue))]) := by
    apply Json.Stable.record
    intro f part
    simp only [List.mem_cons, List.not_mem_nil, or_false] at part
    rcases part with rfl | rfl | rfl
    · exact .str version
    · exact bound_stable written _
    · exact .array values
  rw [hash, hashedText, Json.sort_on_texts ids]
  simp only [whole.text]
  exact ⟨_, rfl⟩

theorem assemble_ok {listed : List Contract} (built : m.Built listed)
    (strict : options.strict = true → unpacked contracts c.visitedIds = [])
    (filled : packedNodes contracts c.visitedIds ≠ [])
    (stable : ∀ n ∈ packedNodes contracts c.visitedIds, n.Stable)
    (written : limits.depth.toValue.digits ≤ Json.maxDigits) :
    ∃ b, (assemble now m contracts options limits key c).outcome = .ok b := by
  have nodes : ∀ n ∈ nodesOf contracts c.visitedIds, n.Stable := by
    intro n member
    exact stable n (List.mem_mergeSort.mp member)
  obtain ⟨bundleHash, hashed⟩ := hash_ok nodes written schemaVersion
  rw [outcome_assemble strict filled, built.edges_among]
  simp only [Except.bind, hashed]
  exact ⟨_, rfl⟩

/-- Packing assembles one collection with versions, whatever it is to do about missing contracts. -/
theorem pack_assembles {t : FileTree} {cache : VersionCache} {entryId : String}
    (entry : (entryKey m entryId).outcome = .ok key) (given : options.limits = .ok limits)
    {versioned : Collection} (collected : (Collection.withVersionsOf t options.versions cache
      (m.collect key limits)).2.outcome = .ok versioned) :
    (pack now t cache m contracts entryId options).2.outcome =
      (assemble now m contracts options limits key versioned).outcome := by
  rw [pack, packFrom, entry, given]
  simp only [Logged.outcome_bind, collected, Except.bind]

/-- Packing what can be collected succeeds when there is some contract, and every one of them where
that is strict, and when the hash can be taken. -/
theorem pack_ok {listed : List Contract} (built : m.Built listed) {t : FileTree}
    {cache : VersionCache} {entryId : String} (entry : (entryKey m entryId).outcome = .ok key)
    (given : options.limits = .ok limits) (collected : (m.collect key limits).outcome = .ok c)
    (strict : options.strict = true → unpacked contracts c.visitedIds = [])
    (filled : packedNodes contracts c.visitedIds ≠ [])
    (stable : ∀ n ∈ packedNodes contracts c.visitedIds, n.Stable)
    (written : limits.depth.toValue.digits ≤ Json.maxDigits) :
    ∃ b, (pack now t cache m contracts entryId options).2.outcome = .ok b := by
  obtain ⟨versioned, done, same⟩ :=
    Collection.with_versions_of_ok collected t options.versions cache
  rw [← Collection.visited_ids_congr same] at strict filled stable
  rw [pack_assembles entry given done]
  exact assemble_ok built strict filled stable written

/-- What a bundle holds of a manifest, of the contracts that were given and of a collection. -/
structure Spans (b : Bundle) (m : Manifest) (contracts : Table String Contract)
    (options : PackOptions) (c : Collection) : Prop where
  nodes_ascend : (b.nodes.map (·.key)).Pairwise (· < ·)
  node_iff : ∀ id, id ∈ b.nodes.map (·.key) ↔ id ∈ c.visitedIds ∧ ∃ k, contracts.get? id = some k
  edges_ascend : b.edges.Pairwise (Prod.Lex (· < ·) (· < ·))
  edge_iff : ∀ user target, (user, target) ∈ b.edges ↔
    user ∈ b.nodes.map (·.key) ∧ target ∈ b.nodes.map (·.key) ∧ m.UsedBy user target
  not_loaded : ∀ id, (b.missing.countP fun d =>
      d.name = .str id ∧ d.reason = .contractNotLoaded) =
    if options.allowMissing = false ∧ id ∈ c.visitedIds ∧ contracts.get? id = none then 1 else 0
  missing_apart : ∃ names : List String, b.missing.map (·.name) = names.map .str ∧ names.Nodup ∧
    ∀ id ∈ names, id ∉ b.nodes.map (·.key)
  truncated : b.truncated = c.truncated

theorem mem_reported_iff {id : String} :
    id ∈ reportedIds contracts options c ↔
      options.allowMissing = false ∧ id ∈ c.visitedIds ∧ contracts.get? id = none := by
  rw [reportedIds]
  cases options.allowMissing with
  | true => simp
  | false => simp [mem_unpacked_iff]

theorem reported_distinct (distinct : c.visitedIds.Nodup) :
    (reportedIds contracts options c).Nodup := by
  rw [reportedIds]
  split
  · exact List.nodup_nil
  · exact distinct.filter _

theorem count_not_loaded (distinct : c.visitedIds.Nodup) (id : String) :
    (((reportedIds contracts options c).map notLoaded).countP fun d =>
        d.name = .str id ∧ d.reason = .contractNotLoaded) =
      if options.allowMissing = false ∧ id ∈ c.visitedIds ∧ contracts.get? id = none then 1
      else 0 := by
  have about : (fun d : MissingDependency => decide (d.name = .str id ∧
      d.reason = .contractNotLoaded)) ∘ notLoaded = fun other => other == id := by
    funext other
    simp [notLoaded, Bool.beq_eq_decide_eq]
  have once : (reportedIds contracts options c).count id = _ := (reported_distinct distinct).count
  rw [List.countP_map, about]
  simp only [mem_reported_iff] at once
  exact once

section Missing

variable {listed : List Contract} {versioned : Collection} {entryId : String}

theorem not_loaded_once (built : m.Built listed)
    (collected : (m.collect entryId limits).outcome = .ok c)
    (same : versioned.unversioned = c.unversioned) (id : String) :
    ((versioned.missing ++ (reportedIds contracts options c).map notLoaded).countP fun d =>
        d.name = .str id ∧ d.reason = .contractNotLoaded) =
      if options.allowMissing = false ∧ id ∈ c.visitedIds ∧ contracts.get? id = none then 1
      else 0 := by
  obtain ⟨distinct, -, lookedFor, -⟩ := built.collect_accounts collected
  have reasons : versioned.missing.map (·.reason) = c.missing.map (·.reason) :=
    Collection.missing_map_congr (fun _ => rfl) same
  have others : (versioned.missing.countP fun d =>
      d.name = .str id ∧ d.reason = .contractNotLoaded) = 0 := by
    apply List.countP_eq_zero.mpr
    intro d member counted
    have there : d.reason ∈ c.missing.map (·.reason) := reasons ▸ List.mem_map_of_mem member
    obtain ⟨plain, reported, equal⟩ := List.mem_map.mp there
    exact lookedFor plain reported (equal.trans (of_decide_eq_true counted).2)
  rw [List.countP_append, others, Nat.zero_add]
  exact count_not_loaded distinct id

/-- What a walk misses is found nowhere, and what has no contract was visited. So no name is there
twice and none is a node. -/
theorem missing_names_apart (built : m.Built listed)
    (collected : (m.collect entryId limits).outcome = .ok c)
    (same : versioned.unversioned = c.unversioned) :
    ∃ names : List String,
      (versioned.missing ++ (reportedIds contracts options c).map notLoaded).map (·.name) =
        names.map .str ∧ names.Nodup ∧ ∀ id ∈ names, id ∉ nodeKeys contracts c.visitedIds := by
  obtain ⟨distinct, found, -, names, texts, apart, nowhere⟩ := built.collect_accounts collected
  have plain : versioned.missing.map (·.name) = c.missing.map (·.name) :=
    Collection.missing_map_congr (fun _ => rfl) same
  have ids : ((reportedIds contracts options c).map notLoaded).map (·.name) =
      (reportedIds contracts options c).map .str := by
    rw [List.map_map]
    rfl
  have unvisited : ∀ name ∈ names, name ∉ c.visitedIds := by
    intro name missed visit
    have here := found name visit
    rw [nowhere name missed] at here
    cases here
  refine ⟨names ++ reportedIds contracts options c, ?_, ?_, ?_⟩
  · rw [List.map_append, List.map_append, ids, plain, texts]
  · refine List.nodup_append.mpr ⟨apart, reported_distinct distinct, ?_⟩
    intro name missed id reported equal
    exact unvisited name missed (equal ▸ (mem_reported_iff.mp reported).2.1)
  · intro id member node
    obtain ⟨visit, contract, given⟩ := mem_node_keys_iff.mp node
    rcases List.mem_append.mp member with missed | reported
    · exact unvisited id missed visit
    · rw [(mem_reported_iff.mp reported).2.2] at given
      cases given

/-- A bundle that was assembled spans its collection, whatever versions were looked up for it. -/
theorem assembled_spans (built : m.Built listed)
    (collected : (m.collect entryId limits).outcome = .ok c)
    (same : versioned.unversioned = c.unversioned) {edges : List (String × String)}
    (among : edgesAmong m (nodeKeys contracts versioned.visitedIds) = .ok edges)
    (bundleHash : String) :
    (assembled now contracts options limits key versioned edges bundleHash).Spans m contracts
      options c := by
  have visited := Collection.visited_ids_congr same
  have reported : reportedIds contracts options versioned = reportedIds contracts options c := by
    rw [reportedIds, reportedIds, visited]
  have keys : (nodesOf contracts versioned.visitedIds).map (·.key) =
      nodeKeys contracts c.visitedIds := by
    rw [keys_of_nodes, visited]
  obtain ⟨distinct, -⟩ := built.collect_accounts collected
  rw [visited] at among
  constructor
  case nodes_ascend =>
    rw [assembled, keys]
    exact node_keys_ascend distinct
  case node_iff =>
    intro id
    rw [assembled, keys]
    exact mem_node_keys_iff
  case edges_ascend => exact built.edges_ascend among
  case edge_iff =>
    intro user target
    rw [assembled, keys]
    exact built.mem_edges_iff among
  case not_loaded =>
    intro id
    rw [assembled, reported]
    exact not_loaded_once built collected same id
  case missing_apart =>
    rw [assembled, keys, reported]
    exact missing_names_apart built collected same
  case truncated => exact Collection.truncated_congr same

end Missing

theorem spans_of_pack {listed : List Contract} (built : m.Built listed) {t : FileTree}
    {cache : VersionCache} {entryId : String}
    (packed : (pack now t cache m contracts entryId options).2.outcome = .ok b) :
    ∃ key limits c, (entryKey m entryId).outcome = .ok key ∧ options.limits = .ok limits ∧
      (m.collect key limits).outcome = .ok c ∧ b.entryId = key ∧ b.Spans m contracts options c := by
  obtain ⟨key, limits, c, versioned, entry, given, collected, same, done⟩ := pack_parts packed
  obtain ⟨edges, bundleHash, among, -, rfl⟩ := assemble_parts done
  exact ⟨key, limits, c, entry, given, collected, rfl,
    assembled_spans built collected same among bundleHash⟩

/-- A packed bundle holds exactly the visited keys that have a contract and exactly the edges between
them, in ascending order. What it misses is named once and is no node of it, and a visited key is
reported for its contract exactly when there is none and that is not allowed. -/
theorem packed_spans {listed : List Contract} {clock : String} {hasher : Hasher} {withIndex : Bool}
    {t : FileTree} {cache : VersionCache} {entryId : String}
    (built : (Manifest.build clock hasher withIndex listed).outcome = .ok m)
    (packed : (pack now t cache m contracts entryId options).2.outcome = .ok b) :
    ∃ r key limits c, m.resolver = .ok r ∧
      r.resolve (EntryId.normalize entryId) none = some key ∧ options.limits = .ok limits ∧
      (m.collect key limits).outcome = .ok c ∧ b.entryId = key ∧ b.Spans m contracts options c := by
  obtain ⟨key, limits, c, entry, rest⟩ := spans_of_pack (Manifest.build_built built) packed
  obtain ⟨r, resolver, means⟩ := entry_key_ok_iff.mp entry
  exact ⟨r, key, limits, c, resolver, means, rest⟩

/-- The contracts of a project by their entry ids. -/
def tableOf (listed : List Contract) : Table String Contract :=
  .ofList (listed.map fun c => (c.entryId, c))

/-- The third component of the chain is visited and has no contract here. -/
theorem packed_spans_of_chain :
    ∃ m b, (Manifest.build "" (.constant (.str "s") (.str "g")) false
        Manifest.chain).outcome = .ok m ∧
      (pack "" .empty {} m (tableOf (Manifest.chain.take 2)) "App"
        ⟨.ok (.counts 2 9 (by decide)), .nowhere, false, false⟩).2.outcome = .ok b ∧
      ∃ r key limits c, m.resolver = .ok r ∧
        r.resolve (EntryId.normalize "App") none = some key ∧
        (.ok (.counts 2 9 (by decide)) : Except Fault Limits) = .ok limits ∧
        (m.collect key limits).outcome = .ok c ∧ b.entryId = key ∧
        b.Spans m (tableOf (Manifest.chain.take 2))
          ⟨.ok (.counts 2 9 (by decide)), .nowhere, false, false⟩ c := by
  have runs : ((Manifest.build "" (.constant (.str "s") (.str "g")) false
      Manifest.chain).outcome.bind fun m => (entryKey m "App").outcome.bind fun key =>
        (m.collect key (.counts 2 9 (by decide))).outcome).map (·.visitedIds) =
      .ok ["src/App.tsx", "src/Page.tsx", "src/Row.tsx"] := by decide +kernel
  obtain ⟨c, done, visited⟩ := ok_of_map runs
  obtain ⟨m, built, done⟩ := ok_of_bind done
  obtain ⟨key, entry, collected⟩ := ok_of_bind done
  have nodes : packedNodes (tableOf (Manifest.chain.take 2)) c.visitedIds =
      [⟨"src/App.tsx", .null⟩, ⟨"src/Page.tsx", .null⟩] := by
    rw [visited]
    decide +kernel
  have stable : ∀ n ∈ packedNodes (tableOf (Manifest.chain.take 2)) c.visitedIds, n.Stable := by
    intro n member
    rw [nodes] at member
    rcases List.mem_cons.mp member with rfl | member
    · exact ⟨rfl, by decide⟩
    · rw [List.mem_singleton.mp member]
      exact ⟨rfl, by decide⟩
  have filled : packedNodes (tableOf (Manifest.chain.take 2)) c.visitedIds ≠ [] := by
    rw [nodes]
    exact List.cons_ne_nil _ _
  have lenient : false = true →
      unpacked (tableOf (Manifest.chain.take 2)) c.visitedIds = [] := by simp
  obtain ⟨b, packed⟩ : ∃ b, (pack "" .empty {} m (tableOf (Manifest.chain.take 2)) "App"
      ⟨.ok (.counts 2 9 (by decide)), .nowhere, false, false⟩).2.outcome = .ok b :=
    pack_ok (Manifest.build_built built) entry rfl collected lenient filled stable (by decide)
  exact ⟨m, b, built, packed, packed_spans built packed⟩

end Bundle

end ContractGraph
