import ContractGraph.Proofs.Manifest.Edges
import ContractGraph.Proofs.Outcome
import ContractGraph.Proofs.Resolver.Keys

/-!
# Manifests that were built

What holds of every manifest that was made from contracts. Each key is the entry id of a contract
and stands as well in its component, the dependencies are names, and the incoming edges are those
of the names. The manifest that is kept resolves names by the same keys as the one that was linked.
-/

namespace ContractGraph

set_option autoImplicit false

/-- What a component holds that was made from one of the contracts, apart from its users. -/
structure Component.MadeFrom (contracts : List Contract) (key : String) (c : Component) : Prop where
  contract : ∃ k ∈ contracts, k.entryId = key ∧ c.dependencies = k.composition.components.map .str
  entry_id : c.entryId = .str key

namespace Component

variable {contracts : List Contract} {key : String} {c : Component}

theorem of_contract_parts {hasher : Hasher} {k : Contract} (made : ofContract hasher k = .ok c) :
    c.entryId = .str k.entryId ∧ c.dependencies = k.composition.components.map .str ∧
      c.usedBy = [] := by
  obtain ⟨structureHash, -, made⟩ := ok_of_bind made
  obtain ⟨signatureHash, -, made⟩ := ok_of_bind made
  cases made
  exact ⟨rfl, rfl, rfl⟩

theorem MadeFrom.dependencies (made : c.MadeFrom contracts key) :
    c.dependencies = c.dependencyNames.map .str := by
  obtain ⟨k, -, -, texts⟩ := made.contract
  have names : c.dependencyNames = k.composition.components := by
    rw [dependencyNames, texts, List.filterMap_map]
    exact List.filterMap_some
  rw [names, texts]

theorem MadeFrom.findable (made : c.MadeFrom contracts key) : c.findableId = .ok (some key) := by
  rw [findableId, made.entry_id]

theorem MadeFrom.mem_names_iff (made : c.MadeFrom contracts key) (name : String) :
    name ∈ c.dependencyNames ↔ .str name ∈ c.dependencies := by
  rw [made.dependencies]
  simp

end Component

namespace Manifest

variable {contracts : List Contract} {m : Manifest}

theorem add_contract_parts {hasher : Hasher} {t t' : Table String Component} {k : Contract}
    (added : (addContract hasher t k).outcome = .ok t') :
    ∃ c, Component.ofContract hasher k = .ok c ∧ t' = t.insert k.entryId c := by
  rcases made : Component.ofContract hasher k with fault | c
  · have failed : (addContract hasher t k).outcome = .error (.shape fault) := by
      rw [addContract, made]
      split <;> rfl
    rw [failed] at added
    cases added
  · have done : (addContract hasher t k).outcome = .ok (t.insert k.entryId c) := by
      rw [addContract, made]
      split <;> rfl
    rw [done] at added
    cases added
    exact ⟨c, rfl, rfl⟩

/-- Before linking, every component is made from a contract and has no users. -/
theorem add_contracts_made {hasher : Hasher} {t : Table String Component}
    (added : (contracts.foldlM (addContract hasher) .empty).outcome = .ok t) :
    ∀ e ∈ t.entries, e.2.MadeFrom contracts e.1 ∧ e.2.usedBy = [] := by
  refine Logged.fold_keeps
    (fun t => ∀ e ∈ t.entries, e.2.MadeFrom contracts e.1 ∧ e.2.usedBy = []) ?_ ?_ added
  · intro k member t t' before added e here
    obtain ⟨c, made, rfl⟩ := add_contract_parts added
    rcases Table.mem_insert here with rfl | ⟨-, old⟩
    · obtain ⟨id, texts, unused⟩ := Component.of_contract_parts made
      exact ⟨⟨⟨k, member, rfl, texts⟩, id⟩, unused⟩
    · exact before e old
  · intro e here
    cases here

/-- What holds of a manifest that was built from contracts. -/
structure Built (contracts : List Contract) (m : Manifest) : Prop where
  made : ∀ e ∈ m.components.entries, e.2.MadeFrom contracts e.1
  used_by : ∀ e ∈ m.components.entries,
    e.2.usedBy = (usersOf (.ofKeys m.components.keys) m.components.entries e.1).map .str
  roots : m.roots = keysWhere (·.usedBy.isEmpty) m.components
  leaves : m.leaves = keysWhere (·.dependencies.isEmpty) m.components

theorem of_components_parts {now : String} {withIndex : Bool} {t : Table String Component}
    (done : ofComponents now withIndex t = .ok m) :
    m.components = (references (.ofKeys t.keys) t).foldl linkReference t ∧
      m.roots = keysWhere (·.usedBy.isEmpty) m.components ∧
      m.leaves = keysWhere (·.dependencies.isEmpty) m.components ∧
      m.warnings = warningsOf (references (.ofKeys t.keys) t) := by
  have sameResolver : Resolver.ofIds (t.entries.map fun e => (e.1, some e.1)) =
      .ofKeys t.keys := by
    rw [Resolver.ofKeys, Resolver.ofRows, Table.keys, List.map_map, List.map_map]
    rfl
  simp only [ofComponents, sameResolver] at done
  split at done
  · obtain ⟨index, -, done⟩ := ok_of_bind done
    cases done
    exact ⟨rfl, rfl, rfl, rfl⟩
  · obtain ⟨index, -, done⟩ := ok_of_bind done
    cases done
    exact ⟨rfl, rfl, rfl, rfl⟩

/-- The manifest has the components with all their users and nothing else changed. -/
theorem of_components_linked {now : String} {withIndex : Bool} {t : Table String Component}
    (unused : ∀ e ∈ t.entries, e.2.usedBy = []) (done : ofComponents now withIndex t = .ok m) :
    m.components.keys = t.keys ∧ m.components.entries = t.entries.map fun e =>
      (e.1, { e.2 with usedBy := (usersOf (.ofKeys t.keys) t.entries e.1).map .str }) := by
  have linked : m.components.entries = t.entries.map fun e =>
      (e.1, { e.2 with usedBy := (usersOf (.ofKeys t.keys) t.entries e.1).map .str }) := by
    rw [(of_components_parts done).1, linked_components unused]
  refine ⟨?_, linked⟩
  rw [Table.keys, linked, List.map_map]
  rfl

theorem of_components_built {now : String} {withIndex : Bool} {t : Table String Component}
    (made : ∀ e ∈ t.entries, e.2.MadeFrom contracts e.1 ∧ e.2.usedBy = [])
    (done : ofComponents now withIndex t = .ok m) : Built contracts m := by
  obtain ⟨-, roots, leaves, -⟩ := of_components_parts done
  obtain ⟨sameKeys, linked⟩ := of_components_linked (fun e member => (made e member).2) done
  -- The users are read off names, which linking leaves alone.
  have sameUsers : ∀ target, usersOf (.ofKeys t.keys) m.components.entries target =
      usersOf (.ofKeys t.keys) t.entries target := by
    intro target
    rw [linked, usersOf, usersOf, List.filter_map, List.map_map]
    rfl
  refine ⟨?_, ?_, roots, leaves⟩
  · intro e member
    rw [linked] at member
    obtain ⟨before, here, rfl⟩ := List.mem_map.mp member
    obtain ⟨contract, id⟩ := (made before here).1
    exact ⟨contract, id⟩
  · intro e member
    rw [sameKeys, sameUsers]
    rw [linked] at member
    obtain ⟨before, -, rfl⟩ := List.mem_map.mp member
    rfl

theorem build_parts {now : String} {hasher : Hasher} {withIndex : Bool}
    (done : (build now hasher withIndex contracts).outcome = .ok m) :
    ∃ t, (contracts.foldlM (addContract hasher) .empty).outcome = .ok t ∧
      ofComponents now withIndex t = .ok m := by
  obtain ⟨t, added, done⟩ := Logged.ok_of_bind done
  obtain ⟨made, linked, done⟩ := Logged.ok_of_bind done
  obtain ⟨-, -, done⟩ := Logged.ok_of_bind done
  obtain ⟨-, -, done⟩ := Logged.ok_of_bind done
  cases done
  exact ⟨t, added, Logged.ok_of_lift linked⟩

theorem report_warnings (warnings : List AmbiguousReference) :
    (warnings.forM reportWarning).outcome = .ok () := by
  induction warnings with
  | nil => rfl
  | cons w rest ih => exact ih

/-- With the same hashes for everything and no index, all contracts have a manifest. -/
theorem exists_build (now : String) (structureHash signatureHash : Json)
    (contracts : List Contract) :
    ∃ m, (build now (.constant structureHash signatureHash) false contracts).outcome = .ok m := by
  have added : ∀ t, ∃ t', (contracts.foldlM
      (addContract (.constant structureHash signatureHash)) t).outcome = .ok t' := by
    induction contracts with
    | nil => exact fun t => ⟨t, rfl⟩
    | cons c rest ih =>
      intro t
      have here : ∃ t', (addContract (.constant structureHash signatureHash) t c).outcome =
          .ok t' := by
        rw [addContract]
        split
        · exact ⟨_, rfl⟩
        · exact ⟨_, rfl⟩
      obtain ⟨middle, here⟩ := here
      obtain ⟨t', later⟩ := ih middle
      refine ⟨t', ?_⟩
      rw [List.foldlM_cons, Logged.outcome_of_ok here]
      exact later
  obtain ⟨t, added⟩ := added .empty
  obtain ⟨m, linked⟩ : ∃ m, ofComponents now false t = .ok m := ⟨_, rfl⟩
  refine ⟨m, ?_⟩
  rw [build, Logged.outcome_of_ok added, linked]
  exact (Logged.outcome_of_ok (report_warnings m.warnings)).trans rfl

theorem build_built {now : String} {hasher : Hasher} {withIndex : Bool}
    (done : (build now hasher withIndex contracts).outcome = .ok m) : Built contracts m := by
  obtain ⟨t, added, linked⟩ := build_parts done
  exact of_components_built (add_contracts_made added) linked

/-- Whether the component under the second key notes the first key as its user. -/
def UsedBy (m : Manifest) (a b : String) : Prop :=
  ∃ c, m.components.get? b = some c ∧ .str a ∈ c.usedBy

theorem key_of_used {user target : String} (used : m.UsedBy user target) :
    target ∈ m.components.keys := by
  rcases used with ⟨c, found, -⟩
  exact (m.components.mem_keys_iff target).mpr ⟨c, found⟩

namespace Built

/-- The manifest resolves names by its keys alone. -/
theorem resolver_eq (b : Built contracts m) : m.resolver = .ok (.ofKeys m.components.keys) := by
  have found : ∀ e ∈ m.components.entries,
      (e.2.findableId.map fun id => (e.1, id)) = .ok (e.1, some e.1) := by
    intro e member
    rw [(b.made e member).findable]
    rfl
  rw [resolver, map_each_ok found]
  simp only [Resolver.ofKeys, Resolver.ofRows, Table.keys, List.map_map]
  rfl

theorem key_of_contract (b : Built contracts m) {key : String} (member : key ∈ m.components.keys) :
    ∃ k ∈ contracts, k.entryId = key := by
  obtain ⟨e, here, rfl⟩ := List.mem_map.mp member
  obtain ⟨k, listed, id, -⟩ := (b.made e here).contract
  exact ⟨k, listed, id⟩

theorem made_of_get (b : Built contracts m) {key : String} {c : Component}
    (found : m.components.get? key = some c) : c.MadeFrom contracts key :=
  b.made (key, c) ((m.components.get_eq_some_iff key c).mp found)

theorem used_by_of_get (b : Built contracts m) {key : String} {c : Component}
    (found : m.components.get? key = some c) :
    c.usedBy = (usersOf (.ofKeys m.components.keys) m.components.entries key).map .str :=
  b.used_by (key, c) ((m.components.get_eq_some_iff key c).mp found)

/-- An incoming edge is a name that means the component where its user has it. -/
theorem used_by_iff (b : Built contracts m) {user target : String} :
    m.UsedBy user target ↔
      ∃ c, m.components.get? user = some c ∧ ∃ name, .str name ∈ c.dependencies ∧
        (Resolver.ofKeys m.components.keys).resolve name (some user) = some target := by
  have noted : ∀ c, m.components.get? target = some c → (.str user ∈ c.usedBy ↔
      user ∈ usersOf (.ofKeys m.components.keys) m.components.entries target) := by
    intro c found
    rw [b.used_by_of_get found]
    simp
  constructor
  · intro given
    rcases given with ⟨c, found, user⟩
    obtain ⟨d, member, name, listed, resolved⟩ := mem_users_iff.mp ((noted c found).mp user)
    have here := (m.components.get_eq_some_iff _ d).mpr member
    exact ⟨d, here, name, ((b.made_of_get here).mem_names_iff name).mp listed, resolved⟩
  · intro given
    rcases given with ⟨d, here, name, listed, resolved⟩
    have member := (m.components.get_eq_some_iff user d).mp here
    have named := ((b.made_of_get here).mem_names_iff name).mpr listed
    obtain ⟨c, found⟩ :=
      (m.components.mem_keys_iff target).mp (Resolver.resolve_of_keys_mem resolved)
    exact ⟨c, found, (noted c found).mpr (mem_users_iff.mpr ⟨d, member, name, named, resolved⟩)⟩

/-- A component notes each of its users once. -/
theorem users_listed (b : Built contracts m) {key : String} {c : Component}
    (found : m.components.get? key = some c) :
    ∃ users : List String, c.usedBy = users.map .str ∧ users.Nodup ∧
      ∀ user, user ∈ users ↔ m.UsedBy user key := by
  have ordered : (usersOf (.ofKeys m.components.keys) m.components.entries key).Sublist
      m.components.keys := List.Sublist.map _ List.filter_sublist
  refine ⟨_, b.used_by_of_get found, m.components.keys_nodup.sublist ordered, ?_⟩
  intro user
  rw [UsedBy, found]
  simp [b.used_by_of_get found]

end Built

end Manifest

end ContractGraph
