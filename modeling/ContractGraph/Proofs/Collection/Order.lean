import ContractGraph.Proofs.Collection.Walk
import ContractGraph.Proofs.Manifest.Built

/-!
# Collections of a built manifest

A collection from an entry that is found is the breadth-first order from its key, cut where there
is no more room. The order goes from a key to what is found under the components that note it as
their user, which is another key where two keys have one normal form.
-/

namespace ContractGraph

set_option autoImplicit false

/-- No contract that was read has the empty entry id, which no lookup finds. -/
theorem Contract.of_document_named {d : Json} {c : Contract} (read : ofDocument d = .ok c) :
    c.entryId ≠ "" := by
  unfold ofDocument at read
  split at read
  · split at read
    · split at read
      · cases read
      · next filled =>
        obtain ⟨interface, -, rfl⟩ := ok_of_map read
        exact filled
    · cases read
  · cases read

namespace Manifest

def scope (m : Manifest) (room : Nat) : Collection.Scope :=
  ⟨m, .ofKeys m.components.keys, room⟩

/-- The keys within a number of levels of a start, each with its level, in breadth-first order. -/
def reach (m : Manifest) (depth : Nat) (start : String) : List (String × Nat) :=
  Graph.spread (m.scope 0).successorsOf depth 0 [] [start]

theorem reach_starts (m : Manifest) (depth : Nat) (start : String) :
    ∃ rest, m.reach depth start = (start, 0) :: rest := by
  cases depth with
  | zero => exact ⟨[], rfl⟩
  | succ depth => exact ⟨_, rfl⟩

theorem mem_names_iff {m : Manifest} {room : Nat} {key name : String} :
    name ∈ (m.scope room).namesOf key ↔
      ∃ c, m.components.get? key = some c ∧ name ∈ c.dependencyNames := by
  rcases here : m.components.get? key with _ | c
  · simp [Collection.Scope.namesOf, Collection.Scope.dependenciesOf, scope, here]
  · simp [Collection.Scope.namesOf, Collection.Scope.dependenciesOf, scope, here,
      Component.dependencyNames]

namespace Built

variable {contracts : List Contract} {m : Manifest}

theorem keys_named (b : Built contracts m) (named : ∀ c ∈ contracts, c.entryId ≠ "") :
    ∀ key ∈ m.components.keys, key ≠ "" := by
  intro key member
  obtain ⟨c, listed, rfl⟩ := b.key_of_contract member
  exact named c listed

theorem dependencies_of (b : Built contracts m) (room : Nat) (key : String) :
    (m.scope room).dependenciesOf key = ((m.scope room).namesOf key).map .str := by
  rw [Collection.Scope.namesOf, Collection.Scope.dependenciesOf]
  rcases here : m.components.get? key with _ | c
  · simp [scope, here]
  · have texts := (b.made_of_get here).dependencies
    rw [Component.dependencyNames] at texts
    simp only [scope, here, Option.map_some, Option.getD_some]
    exact texts

theorem scope_sound (b : Built contracts m) (named : ∀ c ∈ contracts, c.entryId ≠ "")
    (room : Nat) : (m.scope room).Sound where
  names := b.dependencies_of room
  target_found _ _ _ means :=
    Resolver.lookup_key (b.keys_named named _ (Resolver.resolve_of_keys_mem means))
      (Resolver.resolve_of_keys_mem means)
  found_again _ _ found := Resolver.lookup_found found

theorem mem_targets_iff (b : Built contracts m) (room : Nat) (key target : String) :
    target ∈ (m.scope room).targetsOf key ↔ m.UsedBy key target := by
  rw [b.used_by_iff, Collection.Scope.targetsOf, List.mem_filterMap]
  constructor
  · intro given
    rcases given with ⟨name, listed, means⟩
    obtain ⟨c, here, own⟩ := mem_names_iff.mp listed
    exact ⟨c, here, name, ((b.made_of_get here).mem_names_iff name).mp own, means⟩
  · intro given
    rcases given with ⟨c, here, name, listed, means⟩
    have own := ((b.made_of_get here).mem_names_iff name).mpr listed
    exact ⟨name, mem_names_iff.mpr ⟨c, here, own⟩, means⟩

/-- The walk goes on from a key to what is found under the components that note it. -/
theorem mem_successors_iff (b : Built contracts m) (room : Nat) (key next : String) :
    next ∈ (m.scope room).successorsOf key ↔
      ∃ target, m.UsedBy key target ∧
        (Resolver.ofKeys m.components.keys).lookup target = some next := by
  rw [Collection.Scope.successorsOf, List.mem_filterMap]
  constructor
  · intro given
    rcases given with ⟨target, member, found⟩
    exact ⟨target, (b.mem_targets_iff room key target).mp member, found⟩
  · intro given
    rcases given with ⟨target, used, found⟩
    exact ⟨target, (b.mem_targets_iff room key target).mpr used, found⟩

theorem walk_order (b : Built contracts m) (named : ∀ c ∈ contracts, c.entryId ≠ "")
    {entryId start : String}
    (found : (Resolver.ofKeys m.components.keys).lookup entryId = some start)
    (depth nodes : Nat) (room : 1 ≤ nodes) :
    ∃ dropped?, Collection.walk m entryId (.counts depth nodes room) =
        .ok (((m.reach depth start).take nodes).foldl ((m.scope nodes).enter depth) {}, dropped?) ∧
      dropped?.isSome = decide (nodes < (m.reach depth start).length) := by
  have ready : (m.scope nodes).Ready {} [entryId] := by
    refine ⟨?_, ?_⟩
    · intro id member
      have same : id = entryId := List.mem_singleton.mp member
      exact ⟨start, same ▸ found⟩
    · intro key member
      cases member
  have queue : [entryId].filterMap (Resolver.ofKeys m.components.keys).lookup = [start] := by
    simp [found]
  have order : (m.scope nodes).orderOf depth 0 {} [entryId] = m.reach depth start := by
    rw [Collection.Scope.orderOf, reach]
    exact congrArg (Graph.spread _ depth 0 []) queue
  have levels : (Limits.counts depth nodes room).levels m.components.size = depth :=
    Limits.levels_of_whole rfl m.components.size
  have roomKept : (Limits.counts depth nodes room).room m.components.size = nodes :=
    Limits.room_of_whole rfl m.components.size
  have whole : (Limits.counts depth nodes room).depth.isFractional = false :=
    Bound.is_fractional_whole depth
  obtain ⟨dropped?, run, cut⟩ := Collection.Scope.walk_levels_order
    (b.scope_sound named nodes) depth 0 [entryId] {} ready (Nat.zero_le _)
  have opened : Collection.walk m entryId (.counts depth nodes room) =
      Collection.walkLevels (m.scope ((Limits.counts depth nodes room).room m.components.size))
        (!(Limits.counts depth nodes room).depth.isFractional)
        ((Limits.counts depth nodes room).levels m.components.size) 0 [entryId] {} := by
    rw [Collection.walk, b.resolver_eq]
    rfl
  rw [order] at run cut
  refine ⟨dropped?, ?_, ?_⟩
  · rw [opened, levels, roomKept, whole, Bool.not_false, run, Nat.zero_add]
    rfl
  · rw [cut]
    simp [scope]

/-- A collection within counts is the breadth-first order from the key of the entry as far as there
is room, and it is truncated when the order is longer. -/
theorem collect_order (b : Built contracts m) (named : ∀ c ∈ contracts, c.entryId ≠ "")
    {entryId start : String}
    (found : (Resolver.ofKeys m.components.keys).lookup entryId = some start)
    (depth nodes : Nat) (room : 1 ≤ nodes) :
    (m.collect entryId (.counts depth nodes room)).outcome = .ok {
      entryId := .str entryId
      visited := (m.reach depth start).take nodes
      missing := (((m.reach depth start).take nodes).foldl ((m.scope nodes).enter depth) {}).missing
      truncated := decide (nodes < (m.reach depth start).length) } := by
  obtain ⟨dropped?, run, cut⟩ := b.walk_order named found depth nodes room
  have visited : (((m.reach depth start).take nodes).foldl ((m.scope nodes).enter depth)
      {}).visited = (m.reach depth start).take nodes := by
    rw [Collection.Scope.visited_enter_all]
    rfl
  have shape : (m.collect entryId (.counts depth nodes room)).outcome = .ok {
      entryId := .str entryId
      visited := (((m.reach depth start).take nodes).foldl ((m.scope nodes).enter depth)
        {}).visited
      missing := (((m.reach depth start).take nodes).foldl ((m.scope nodes).enter depth)
        {}).missing
      truncated := dropped?.isSome } := by
    rw [collect, run]
    cases dropped? <;> rfl
  rw [shape, visited, cut]

theorem reach_found (b : Built contracts m) {depth n : Nat} {start v : String}
    (first : (Resolver.ofKeys m.components.keys).lookup start = some start)
    (member : (v, n) ∈ m.reach depth start) :
    (Resolver.ofKeys m.components.keys).lookup v = some v := by
  obtain ⟨-, path, -⟩ := Graph.mem_spread_start_iff.mp member
  cases path with
  | start => exact first
  | step path last =>
    obtain ⟨target, -, found⟩ := (b.mem_successors_iff 0 _ v).mp last
    exact Resolver.lookup_found found

/-- No walk visits more keys than there are. -/
theorem reach_length (b : Built contracts m) (depth : Nat) {start : String}
    (first : (Resolver.ofKeys m.components.keys).lookup start = some start) :
    (m.reach depth start).length ≤ m.components.size := by
  have distinct : ((m.reach depth start).map (·.1)).Nodup :=
    (Graph.spread_distinct _ depth 0 [] [start]).1
  have keys : (m.reach depth start).map (·.1) ⊆ m.components.keys := by
    intro v member
    obtain ⟨⟨u, n⟩, here, rfl⟩ := List.mem_map.mp member
    exact (Resolver.lookup_of_keys_eq_some (b.reach_found first here)).2.1
  have bound := distinct.length_le_of_subset keys
  rw [List.length_map, Table.keys, List.length_map] at bound
  exact bound

end Built

end Manifest

end ContractGraph
