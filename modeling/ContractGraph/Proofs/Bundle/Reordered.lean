import ContractGraph.Proofs.Bundle.Packed
import ContractGraph.Proofs.Collection.Agree

/-!
# The order of the contracts

The order in which contracts are given decides which of several candidates a name means, and nothing
else: without an ambiguous reference the graph, its collections and its bundles are the same.
-/

namespace ContractGraph

set_option autoImplicit false

namespace Bundle

/-- Packing asks a manifest for its edges and a table for contracts under keys. -/
theorem assemble_congr {m m' : Manifest} {contracts others : Table String Contract}
    (edges : ∀ packed, edgesAmong m packed = edgesAmong m' packed)
    (given : ∀ id, contracts.get? id = others.get? id) (now : String) (options : PackOptions)
    (limits : Limits) (key : String) (c : Collection) :
    assemble now m contracts options limits key c =
      assemble now m' others options limits key c := by
  have nodes : packedNodes contracts c.visitedIds = packedNodes others c.visitedIds := by
    simp only [packedNodes, given]
  have absent : unpacked contracts c.visitedIds = unpacked others c.visitedIds := by
    simp only [unpacked, Table.contains_eq, given]
  simp only [assemble, nodes, absent, edges]

end Bundle

namespace Manifest

open ContractGraph.Bundle (edgesAmong entryKey pack)

variable {contracts others : List Contract} {m m' : Manifest}

/-- A key means itself as an entry. -/
theorem Built.entry_key (b : Built contracts m)
    (apart : ∀ a ∈ m.components.keys, ∀ b ∈ m.components.keys,
      EntryId.normalize a = EntryId.normalize b → a = b) {key : String}
    (member : key ∈ m.components.keys) (named : key ≠ "") : entryKey m key = ⟨[], .ok key⟩ := by
  have found : (Resolver.ofKeys m.components.keys).lookup (EntryId.normalize key) = some key := by
    rw [Resolver.lookup_normalize]
    exact Resolver.lookup_key_of_apart apart named member
  rw [entryKey, b.resolver_eq]
  simp only [bind, Logged.bind, liftM, monadLift, MonadLift.monadLift, Except.mapError,
    Resolver.resolve_of_lookup found]
  rfl

namespace Reordered

theorem targets_eq (o : Reordered contracts others m m') (clear : m.Clear) (key : String) :
    (m.scope 0).targetsOf key = (m'.scope 0).targetsOf key := by
  have names : (m.scope 0).namesOf key = (m'.scope 0).namesOf key := by
    rw [Collection.Scope.namesOf, Collection.Scope.namesOf, (o.agree clear 0).dependencies]
  rw [Collection.Scope.targetsOf, Collection.Scope.targetsOf, ← names]
  apply List.filterMap_congr
  intro name listed
  obtain ⟨c, here, own⟩ := mem_names_iff.mp listed
  exact congrArg (Option.map (·.key)) (o.find_own clear here own)

theorem edges_eq (o : Reordered contracts others m m') (clear : m.Clear) (packed : List String) :
    edgesAmong m packed = edgesAmong m' packed := by
  have inside : m.edgesInside packed = m'.edgesInside packed := by
    funext key
    rw [edgesInside, edgesInside, o.targets_eq clear]
  rw [o.first.edges_among, o.second.edges_among, inside]

theorem pack_eq (o : Reordered contracts others m m') (clear : m.Clear) {key : String}
    (member : key ∈ m.components.keys) (named : key ≠ "") {table more : Table String Contract}
    (given : ∀ id, table.get? id = more.get? id) (now : String) (t : FileTree)
    (cache : VersionCache) (options : Bundle.PackOptions) :
    pack now t cache m table key options = pack now t cache m' more key options := by
  have first := o.first.entry_key o.apart member named
  have second := o.second.entry_key o.symm.apart (o.keys.mem_iff.mp member) named
  rw [pack, pack, Bundle.packFrom, Bundle.packFrom, first, second]
  cases options.limits with
  | error fault => rfl
  | ok limits =>
    have assembled := Bundle.assemble_congr (o.edges_eq clear) given now options limits key
    simp only [o.collect_eq clear, funext assembled]

end Reordered

/-- Two orders of contracts whose entry ids all have different normal forms give every name the same
tier and the same candidates. If no name that a component has is ambiguous in one order, none is in
the other, and users, roots, collections and bundles are the same. -/
theorem order_free {now : String} {hasher : Hasher} {withIndex : Bool}
    (built : (build now hasher withIndex contracts).outcome = .ok m)
    (rebuilt : (build now hasher withIndex others).outcome = .ok m')
    (perm : contracts.Perm others)
    (distinct : (contracts.map fun c => EntryId.normalize c.entryId).Nodup) :
    ∃ r r', m.resolver = .ok r ∧ m'.resolver = .ok r' ∧
      (∀ name referrer, Option.Rel Match.Reordered (r.find? name referrer)
        (r'.find? name referrer)) ∧
      m.components.keys.Perm m'.components.keys ∧ m.leaves = m'.leaves ∧
      (m.warnings = [] → m'.warnings = [] ∧
        (∀ key c d, m.components.get? key = some c → m'.components.get? key = some d →
          c.usedBy.Perm d.usedBy) ∧
        m.roots = m'.roots ∧
        ∀ key ∈ m.components.keys, ∀ (t : FileTree) (cache : VersionCache),
          (∀ limits source, Collection.withVersionsOf t source cache (m.collect key limits) =
            Collection.withVersionsOf t source cache (m'.collect key limits)) ∧
          (key ≠ "" → ∀ table more : Table String Contract,
            (∀ id, table.get? id = more.get? id) → ∀ clock options,
              pack clock t cache m table key options = pack clock t cache m' more key options)) := by
  have o := build_reordered built rebuilt perm distinct
  refine ⟨_, _, o.first.resolver_eq, o.second.resolver_eq, o.find_reordered, o.keys, o.leaves_eq,
    ?_⟩
  intro none
  have clear := (build_clear_iff built).mp none
  refine ⟨(build_clear_iff rebuilt).mpr (o.clear clear), ?_, o.roots_eq clear, ?_⟩
  · intro key c d here there
    exact o.users_perm clear here there
  · intro key member t cache
    constructor
    · intro limits source
      rw [o.collect_eq clear]
    · intro named table more given clock options
      exact o.pack_eq clear member named given clock t cache options

theorem order_free_of_chain :
    chain.Perm chain.reverse ∧ (chain.map fun c => EntryId.normalize c.entryId).Nodup ∧
      ∃ m m', (build "" (.constant (.str "s") (.str "g")) false chain).outcome = .ok m ∧
        (build "" (.constant (.str "s") (.str "g")) false chain.reverse).outcome = .ok m' ∧
        m.warnings = [] ∧
        ∃ r r', m.resolver = .ok r ∧ m'.resolver = .ok r' ∧
          (∀ name referrer, Option.Rel Match.Reordered (r.find? name referrer)
            (r'.find? name referrer)) ∧
          m.components.keys.Perm m'.components.keys ∧ m.leaves = m'.leaves ∧
          m'.warnings = [] ∧
          (∀ key c d, m.components.get? key = some c → m'.components.get? key = some d →
            c.usedBy.Perm d.usedBy) ∧
          m.roots = m'.roots ∧
          ∀ key ∈ m.components.keys, ∀ (t : FileTree) (cache : VersionCache),
            (∀ limits source, Collection.withVersionsOf t source cache (m.collect key limits) =
              Collection.withVersionsOf t source cache (m'.collect key limits)) ∧
            (key ≠ "" → ∀ table more : Table String Contract,
              (∀ id, table.get? id = more.get? id) → ∀ clock options,
                pack clock t cache m table key options =
                  pack clock t cache m' more key options) := by
  have distinct : (chain.map fun c => EntryId.normalize c.entryId).Nodup := by decide +kernel
  have perm : chain.Perm chain.reverse := (List.reverse_perm chain).symm
  have runs : (build "" (.constant (.str "s") (.str "g")) false chain).outcome.map (·.warnings) =
      .ok [] := by decide +kernel
  obtain ⟨m, built, none⟩ := ok_of_map runs
  obtain ⟨m', rebuilt⟩ : ∃ m',
      (build "" (.constant (.str "s") (.str "g")) false chain.reverse).outcome = .ok m' := ⟨_, rfl⟩
  obtain ⟨r, r', first, second, names, keys, leaves, rest⟩ := order_free built rebuilt perm distinct
  exact ⟨perm, distinct, m, m', built, rebuilt, none, r, r', first, second, names, keys, leaves,
    rest none⟩

end Manifest

end ContractGraph
