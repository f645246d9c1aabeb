import ContractGraph.Proofs.Bundle.Packed
import ContractGraph.Proofs.Collection.Levels

/-!
# A bundle is a connected and closed subgraph

Where no two entry ids have one normal form and every contract is given, a bundle holds a path from
its entry to each of its nodes, as a walk visits the users of a key after the key itself and so a
cut of the walk keeps a shortest path to whatever it keeps. A bundle that is not truncated holds all
edges of the nodes above its depth.
-/

namespace ContractGraph

set_option autoImplicit false

open ContractGraph.Graph (Path IsDistance)

namespace Manifest

variable {contracts : List Contract} {m : Manifest}

/-- Where there is room at all a walk keeps its start. -/
theorem start_kept (m : Manifest) (depth : Nat) {nodes : Nat} (room : 1 ≤ nodes)
    (start : String) : start ∈ ((m.reach depth start).take nodes).map (·.1) := by
  obtain ⟨rest, starts⟩ := m.reach_starts depth start
  have one : nodes = nodes - 1 + 1 := by omega
  rw [starts, one, List.take_succ_cons]
  exact List.mem_cons_self

namespace Built

/-- Along edges inside what a walk keeps there is a shortest path to everything that it keeps. -/
theorem path_inside (b : Built contracts m) (named : ∀ c ∈ contracts, c.entryId ≠ "")
    (apart : EntryIdsApart contracts) {depth nodes n : Nat} {start v : String}
    (kept : (v, n) ∈ (m.reach depth start).take nodes) :
    Path (fun u w => u ∈ ((m.reach depth start).take nodes).map (·.1) ∧
      w ∈ ((m.reach depth start).take nodes).map (·.1) ∧ m.UsedBy u w) start n v := by
  have ascending : (m.reach depth start).Pairwise fun v w => v.2 ≤ w.2 :=
    Graph.spread_levels_ascend _ depth 0 [] [start]
  induction n generalizing v with
  | zero =>
    obtain ⟨-, distance⟩ := (b.mem_reach_iff named apart).mp (List.mem_of_mem_take kept)
    cases distance.1
    exact .start
  | succ n ih =>
    obtain ⟨within, distance⟩ := (b.mem_reach_iff named apart).mp (List.mem_of_mem_take kept)
    obtain ⟨u, before, last⟩ := Graph.distance_before distance
    have reached : (u, n) ∈ m.reach depth start :=
      (b.mem_reach_iff named apart).mpr ⟨by omega, before⟩
    have above := Graph.mem_take_of_above ascending kept reached (Nat.lt_succ_self n)
    exact .step (ih above) ⟨List.mem_map_of_mem above, List.mem_map_of_mem kept, last⟩

end Built

end Manifest

namespace Bundle

variable {contracts : List Contract} {m : Manifest}

theorem table_of_get {key : String} {c : Contract} (found : (tableOf contracts).get? key = some c) :
    c ∈ contracts ∧ c.entryId = key := by
  rw [tableOf, Table.get_of_list] at found
  obtain ⟨e, first, rfl⟩ := Option.map_eq_some_iff.mp found
  have listed := List.mem_reverse.mp (List.mem_of_find?_eq_some first)
  obtain ⟨d, member, rfl⟩ := List.mem_map.mp listed
  have same := List.find?_some first
  exact ⟨member, by simpa using same⟩

theorem table_of_contract {c : Contract} (member : c ∈ contracts) :
    ∃ d, (tableOf contracts).get? c.entryId = some d := by
  rw [tableOf, Table.get_of_list, ← Option.isSome_iff_exists, Option.isSome_map,
    List.find?_isSome]
  exact ⟨(c.entryId, c), List.mem_reverse.mpr (List.mem_map_of_mem member), by simp⟩

/-- Everything that a walk keeps has its contract among all of them. -/
theorem kept_has_contract (manifest : m.Built contracts) {depth nodes : Nat} {start v : String}
    (first : (Resolver.ofKeys m.components.keys).lookup start = some start)
    (kept : v ∈ ((m.reach depth start).take nodes).map (·.1)) :
    ∃ c, (tableOf contracts).get? v = some c := by
  obtain ⟨⟨u, n⟩, member, rfl⟩ := List.mem_map.mp kept
  have found := manifest.reach_found first (List.mem_of_mem_take member)
  obtain ⟨c, listed, rfl⟩ :=
    manifest.key_of_contract (Resolver.lookup_of_keys_eq_some found).2.1
  exact table_of_contract listed

/-- A bundle is a part of the graph around its entry in which the entry leads to every node within
the depth, and it is all of that part when it is not truncated. -/
structure Closed (b : Bundle) (m : Manifest) (r : Resolver) (depth nodes : Nat) : Prop where
  entry : b.entryId ∈ b.nodes.map (·.key)
  room : b.nodes.length ≤ nodes
  connected : ∀ v ∈ b.nodes.map (·.key), ∃ n ≤ depth,
    Path (fun u w => (u, w) ∈ b.edges) b.entryId n v
  closed : b.truncated = false → ∀ v ∈ b.nodes.map (·.key), ∀ n < depth,
    IsDistance (fun u w => (u, w) ∈ b.edges) b.entryId v n →
    ∀ c name target, m.components.get? v = some c → .str name ∈ c.dependencies →
      r.resolve name (some v) = some target →
        target ∈ b.nodes.map (·.key) ∧ (v, target) ∈ b.edges

theorem closed_of_spans (manifest : m.Built contracts) (named : ∀ c ∈ contracts, c.entryId ≠ "")
    (apart : EntryIdsApart contracts) {depth nodes : Nat} (room : 1 ≤ nodes) {b : Bundle}
    {options : PackOptions} {c : Collection}
    (found : (Resolver.ofKeys m.components.keys).lookup b.entryId = some b.entryId)
    (visited : c.visited = (m.reach depth b.entryId).take nodes)
    (truncated : c.truncated = decide (nodes < (m.reach depth b.entryId).length))
    (spans : b.Spans m (tableOf contracts) options c) :
    b.Closed m (.ofKeys m.components.keys) depth nodes := by
  have kept : ∀ v, v ∈ b.nodes.map (·.key) ↔
      v ∈ ((m.reach depth b.entryId).take nodes).map (·.1) := by
    intro v
    rw [spans.node_iff, Collection.visitedIds, visited]
    constructor
    · intro given
      exact given.1
    · intro member
      exact ⟨member, kept_has_contract manifest found member⟩
  refine ⟨?_, ?_, ?_, ?_⟩
  · rw [kept]
    exact m.start_kept depth room b.entryId
  · have distinct := Text.nodup_of_ascending spans.nodes_ascend
    have within := distinct.length_le_of_subset fun v member => (kept v).mp member
    rw [List.length_map, List.length_map, List.length_take] at within
    omega
  · intro v member
    obtain ⟨⟨u, n⟩, here, rfl⟩ := List.mem_map.mp ((kept v).mp member)
    obtain ⟨within, -⟩ := (manifest.mem_reach_iff named apart).mp (List.mem_of_mem_take here)
    refine ⟨n, within, Graph.path_mono ?_ (manifest.path_inside named apart here)⟩
    intro x y inside
    rw [spans.edge_iff, kept, kept]
    exact inside
  · intro whole v member n above distance k name target here listed means
    have used : m.UsedBy v target := manifest.used_by_iff.mpr ⟨k, here, name, listed, means⟩
    have path : Path m.UsedBy b.entryId n v :=
      Graph.path_mono (fun x y edge => ((spans.edge_iff x y).mp edge).2.2) distance.1
    obtain ⟨i, near, shortest⟩ := Graph.distance_of_path (path.step used)
    have reached : (target, i) ∈ m.reach depth b.entryId :=
      (manifest.mem_reach_iff named apart).mpr ⟨by omega, shortest⟩
    have fits : (m.reach depth b.entryId).length ≤ nodes := by
      rw [spans.truncated, truncated] at whole
      exact Nat.le_of_not_lt (of_decide_eq_false whole)
    have node : target ∈ b.nodes.map (·.key) := by
      rw [kept, List.take_of_length_le fits]
      exact List.mem_map_of_mem reached
    exact ⟨node, (spans.edge_iff v target).mpr ⟨member, node, used⟩⟩

/-- With all contracts given, packing does not fail for want of one. -/
theorem pack_all_ok (manifest : m.Built contracts) (named : ∀ c ∈ contracts, c.entryId ≠ "")
    {entryId key : String} (entry : (entryKey m entryId).outcome = .ok key)
    (found : (Resolver.ofKeys m.components.keys).lookup key = some key) {depth nodes : Nat}
    {room : 1 ≤ nodes} {options : PackOptions}
    (given : options.limits = .ok (.counts depth nodes room))
    (written : Binary64.decimalLength depth ≤ Json.maxDigits)
    (stable : ∀ c ∈ contracts, PackedNode.Stable ⟨c.entryId, c.source⟩) (now : String)
    (t : FileTree) (cache : VersionCache) :
    ∃ b, (pack now t cache m (tableOf contracts) entryId options).2.outcome = .ok b := by
  have order := manifest.collect_order named found depth nodes room
  refine pack_ok manifest entry given order ?_ ?_ ?_ written
  · intro _
    apply List.eq_nil_iff_forall_not_mem.mpr
    intro v absent
    obtain ⟨visit, none⟩ := mem_unpacked_iff.mp absent
    obtain ⟨c, here⟩ := kept_has_contract manifest found visit
    rw [none] at here
    cases here
  · have visit := m.start_kept depth room key
    obtain ⟨c, here⟩ := kept_has_contract manifest found visit
    exact packed_nodes_ne_nil visit here
  · intro n member
    obtain ⟨v, -, made⟩ := List.mem_filterMap.mp member
    obtain ⟨c, here, rfl⟩ := Option.map_eq_some_iff.mp made
    obtain ⟨listed, rfl⟩ := table_of_get here
    exact stable c listed

/-- Every entry that means something has a bundle of the contracts of its project, if only the depth can
be written and their semantic hashes have a stable text. The bundle is a connected part of the graph
with room for its nodes, and unless it is truncated it is closed above its depth. -/
theorem packed_is_closed {clock : String} {hasher : Hasher} {withIndex : Bool}
    (built : (Manifest.build clock hasher withIndex contracts).outcome = .ok m)
    (named : ∀ c ∈ contracts, c.entryId ≠ "") (apart : EntryIdsApart contracts) :
    ∃ r, m.resolver = .ok r ∧ ∀ entryId key,
      r.resolve (EntryId.normalize entryId) none = some key →
      ∀ (depth nodes : Nat) (room : 1 ≤ nodes) (versions : VersionSource)
        (allowMissing strict : Bool) (now : String) (t : FileTree) (cache : VersionCache),
        (Binary64.decimalLength depth ≤ Json.maxDigits →
          (∀ c ∈ contracts, PackedNode.Stable ⟨c.entryId, c.source⟩) →
          ∃ b, (pack now t cache m (tableOf contracts) entryId
            ⟨.ok (.counts depth nodes room), versions, allowMissing, strict⟩).2.outcome = .ok b) ∧
        ∀ b, (pack now t cache m (tableOf contracts) entryId
            ⟨.ok (.counts depth nodes room), versions, allowMissing, strict⟩).2.outcome = .ok b →
          b.entryId = key ∧ b.Closed m r depth nodes := by
  have manifest := Manifest.build_built built
  refine ⟨_, manifest.resolver_eq, ?_⟩
  intro entryId key means depth nodes room versions allowMissing strict now t cache
  have entry : (entryKey m entryId).outcome = .ok key :=
    entry_key_ok_iff.mpr ⟨_, manifest.resolver_eq, means⟩
  have found := manifest.lookup_key named apart (Resolver.resolve_of_keys_mem means)
  have order := manifest.collect_order named found depth nodes room
  constructor
  · intro written stable
    exact pack_all_ok manifest named entry found rfl written stable now t cache
  · intro b packed
    obtain ⟨other, limits, c, same, given, collected, rfl, spans⟩ := spans_of_pack manifest packed
    rw [entry] at same
    cases same
    cases given
    rw [order] at collected
    cases collected
    exact ⟨rfl, closed_of_spans manifest named apart room found rfl rfl spans⟩

theorem packed_is_closed_of_chain :
    (∀ c ∈ Manifest.chain, c.entryId ≠ "") ∧ EntryIdsApart Manifest.chain ∧
      (∀ c ∈ Manifest.chain, PackedNode.Stable ⟨c.entryId, c.source⟩) ∧
      ∃ m r b, (Manifest.build "" (.constant (.str "s") (.str "g")) false
          Manifest.chain).outcome = .ok m ∧ m.resolver = .ok r ∧
        r.resolve (EntryId.normalize "App") none = some "src/App.tsx" ∧
        (pack "" .empty {} m (tableOf Manifest.chain) "App"
          ⟨.ok (.counts 1 2 (by decide)), .nowhere, false, true⟩).2.outcome = .ok b ∧
        b.entryId = "src/App.tsx" ∧ b.Closed m r 1 2 := by
  have named : ∀ c ∈ Manifest.chain, c.entryId ≠ "" := by decide
  have apart : EntryIdsApart Manifest.chain := by decide +kernel
  have stable : ∀ c ∈ Manifest.chain, PackedNode.Stable ⟨c.entryId, c.source⟩ := by
    intro c member
    have source : ∀ c ∈ Manifest.chain, c.source = .null := by decide
    rw [source c member]
    exact ⟨rfl, Nat.zero_le Json.maxDigits⟩
  have runs : ((Manifest.build "" (.constant (.str "s") (.str "g")) false
      Manifest.chain).outcome.bind fun m => (entryKey m "App").outcome) = .ok "src/App.tsx" := by
    decide +kernel
  obtain ⟨m, built, entry⟩ := ok_of_bind runs
  obtain ⟨r, resolver, means⟩ := entry_key_ok_iff.mp entry
  obtain ⟨other, same, all⟩ := packed_is_closed built named apart
  rw [resolver] at same
  cases same
  obtain ⟨succeeds, each⟩ := all "App" "src/App.tsx" means 1 2 (by decide) .nowhere false true ""
    .empty {}
  obtain ⟨b, packed⟩ := succeeds (by decide) stable
  obtain ⟨id, closed⟩ := each b packed
  exact ⟨named, apart, stable, m, r, b, built, resolver, means, packed, id, closed⟩

end Bundle

end ContractGraph
