import ContractGraph.CommandLine.Run
import ContractGraph.Proofs.Manifest.Built
import ContractGraph.Proofs.Table

/-!
# Superseded contracts

Of several contracts with one entry id the last one counts, at the place of the first. A manifest is
the one of the contracts that are left when all others are dropped, and the table of contracts that
packing starts from holds under every key the contract that the component under the key was made
from.
-/

namespace ContractGraph

set_option autoImplicit false

/-- What a component holds of the contract that it was made from. Its users come from others. -/
structure Component.Holds (hasher : Hasher) (c : Contract) (node : Component) : Prop where
  entry_id : node.entryId = .str c.entryId
  description : node.description = .str c.description
  dependencies : node.dependencies = c.composition.components.map .str
  imports : node.imports = c.composition.imports.map .str
  routes : node.routes = c.usedIn.map .str
  semantic_hash : node.semanticHash = .str c.semanticHash
  structure_hash : hasher.structureHash c.composition = .ok node.structureHash
  signature_hash : hasher.signatureHash c.interface = .ok node.signatureHash

theorem Component.Holds.with_users {hasher : Hasher} {c : Contract} {node : Component}
    (h : node.Holds hasher c) (users : List Json) : { node with usedBy := users }.Holds hasher c :=
  ⟨h.entry_id, h.description, h.dependencies, h.imports, h.routes, h.semantic_hash,
    h.structure_hash, h.signature_hash⟩

namespace Manifest

open CommandLine (contractsById)

variable {now : String} {hasher : Hasher} {withIndex : Bool} {contracts : List Contract}
  {m : Manifest}

theorem contracts_by_id_entries (contracts : List Contract) :
    (contractsById contracts).entries =
      (lastOfEach (·.entryId) contracts).map fun c => (c.entryId, c) := by
  rw [contractsById, Table.entries_of_list, last_of_each_map]

theorem contracts_by_id_of_last (contracts : List Contract) :
    contractsById (lastOfEach (·.entryId) contracts) = contractsById contracts := by
  rw [contractsById, ← contracts_by_id_entries, Table.of_list_entries]

theorem mem_contracts_by_id {e : String × Contract}
    (member : e ∈ (contractsById contracts).entries) : e.2 ∈ contracts := by
  rw [contracts_by_id_entries] at member
  obtain ⟨c, kept, rfl⟩ := List.mem_map.mp member
  exact mem_of_last_of_each kept

theorem holds_of_contract {c : Contract} {node : Component}
    (made : Component.ofContract hasher c = .ok node) : node.Holds hasher c := by
  obtain ⟨structureHash, first, made⟩ := ok_of_bind made
  obtain ⟨signatureHash, second, made⟩ := ok_of_bind made
  cases made
  exact ⟨rfl, rfl, rfl, rfl, rfl, rfl, first, second⟩

/-- The component of a contract, an empty one where a hash cannot be derived. -/
def componentOf (hasher : Hasher) (c : Contract) : Component :=
  (Component.ofContract hasher c).toOption.getD { entryId := .str c.entryId }

theorem component_of_made {c : Contract} {node : Component}
    (made : Component.ofContract hasher c = .ok node) : componentOf hasher c = node := by
  rw [componentOf, made]
  rfl

theorem add_contract_made {t : Table String Component} {c : Contract}
    (made : Component.ofContract hasher c = .ok (componentOf hasher c)) :
    (addContract hasher t c).outcome = .ok (t.insert c.entryId (componentOf hasher c)) := by
  rw [addContract, made]
  split <;> rfl

/-- Contracts become components one after the other when each of them can become one. -/
theorem add_contracts_ok_iff {t t' : Table String Component} :
    (contracts.foldlM (addContract hasher) t).outcome = .ok t' ↔
      (∀ c ∈ contracts, Component.ofContract hasher c = .ok (componentOf hasher c)) ∧
        t' = contracts.foldl (fun t c => t.insert c.entryId (componentOf hasher c)) t := by
  induction contracts generalizing t with
  | nil =>
    rw [List.foldlM_nil, Logged.outcome_pure, Except.ok.injEq, List.foldl_nil]
    simp [eq_comm]
  | cons c rest ih =>
    rw [List.foldlM_cons, List.foldl_cons, List.forall_mem_cons]
    constructor
    · intro done
      obtain ⟨middle, here, done⟩ := Logged.ok_of_bind done
      obtain ⟨node, made, rfl⟩ := add_contract_parts here
      obtain ⟨each, rfl⟩ := ih.mp done
      rw [component_of_made made]
      exact ⟨⟨made, each⟩, rfl⟩
    · rintro ⟨⟨first, each⟩, rfl⟩
      rw [Logged.outcome_of_ok (add_contract_made first)]
      exact ih.mpr ⟨each, rfl⟩

/-- Making components and keeping the last under each id go in either order. -/
theorem components_of_contracts_by_id (hasher : Hasher) (contracts : List Contract) :
    contracts.foldl (fun t c => t.insert c.entryId (componentOf hasher c)) .empty =
      (contractsById contracts).map fun _ c => componentOf hasher c := by
  have listed : contracts.foldl (fun t c => t.insert c.entryId (componentOf hasher c)) .empty =
      Table.ofList (contracts.map fun c => (c.entryId, componentOf hasher c)) := by
    rw [Table.ofList, List.foldl_map]
  have mapped : ((contractsById contracts).map fun _ c => componentOf hasher c).entries =
      (contractsById contracts).entries.map fun e => (e.1, componentOf hasher e.2) := rfl
  apply Table.eq_of_entries
  rw [listed, mapped, Table.entries_of_list, last_of_each_map, contracts_by_id_entries,
    List.map_map]
  rfl

/-- A manifest is built when every contract can become a component, those included that a later one
supersedes, and the components of the last contracts can be linked. -/
theorem build_ok_iff :
    (build now hasher withIndex contracts).outcome = .ok m ↔
      (∀ c ∈ contracts, Component.ofContract hasher c = .ok (componentOf hasher c)) ∧
        ofComponents now withIndex
          ((contractsById contracts).map fun _ c => componentOf hasher c) = .ok m := by
  rw [← components_of_contracts_by_id]
  constructor
  · intro done
    obtain ⟨t, added, linked⟩ := build_parts done
    obtain ⟨each, rfl⟩ := add_contracts_ok_iff.mp added
    exact ⟨each, linked⟩
  · rintro ⟨each, linked⟩
    have added : (contracts.foldlM (addContract hasher) .empty).outcome = .ok _ :=
      add_contracts_ok_iff.mpr ⟨each, rfl⟩
    rw [build, Logged.outcome_of_ok added, linked]
    exact (Logged.outcome_of_ok (report_warnings m.warnings)).trans rfl

/-- The components stand under the ids of the contracts that count, each made from its contract. -/
theorem build_by_id (built : (build now hasher withIndex contracts).outcome = .ok m) :
    (contractsById contracts).keys = m.components.keys ∧
      ∀ e ∈ (contractsById contracts).entries,
        ∃ node, (e.1, node) ∈ m.components.entries ∧ node.Holds hasher e.2 := by
  obtain ⟨each, linked⟩ := build_ok_iff.mp built
  have unused : ∀ e ∈ ((contractsById contracts).map fun _ c => componentOf hasher c).entries,
      e.2.usedBy = [] := by
    intro e member
    obtain ⟨d, listed, rfl⟩ := List.mem_map.mp member
    exact (Component.of_contract_parts (each d.2 (mem_contracts_by_id listed))).2.2
  obtain ⟨keys, entries⟩ := of_components_linked unused linked
  rw [Table.keys_map] at keys
  refine ⟨keys.symm, ?_⟩
  intro e listed
  have made := holds_of_contract (each e.2 (mem_contracts_by_id listed))
  have there : (e.1, componentOf hasher e.2) ∈
      ((contractsById contracts).map fun _ c => componentOf hasher c).entries :=
    List.mem_map.mpr ⟨e, listed, rfl⟩
  rw [entries]
  exact ⟨_, List.mem_map_of_mem there, made.with_users _⟩

/-- Every component holds what one of the contracts says. -/
theorem exists_contract_of_component
    (built : (build now hasher withIndex contracts).outcome = .ok m) :
    ∀ e ∈ m.components.entries, ∃ c, e.2.Holds hasher c := by
  intro e member
  obtain ⟨keys, held⟩ := build_by_id built
  have listed : e.1 ∈ (contractsById contracts).keys :=
    keys ▸ List.mem_map_of_mem member
  obtain ⟨d, there, same⟩ := List.mem_map.mp listed
  obtain ⟨node, here, holds⟩ := held d there
  have only : (d.1, node) = e := Table.entry_unique here member (beq_iff_eq.mpr same)
  exact ⟨d.2, only ▸ holds⟩

/-- Of the contracts with one entry id only the last is built, at the place of the first, and
packing finds under the id the contract that its component holds. -/
theorem later_contract_supersedes
    (built : (build now hasher withIndex contracts).outcome = .ok m) :
    (build now hasher withIndex (lastOfEach (·.entryId) contracts)).outcome = .ok m ∧
      (contractsById contracts).entries =
        (lastOfEach (·.entryId) contracts).map (fun c => (c.entryId, c)) ∧
      (contractsById contracts).keys = m.components.keys ∧
      ∀ key c, (contractsById contracts).get? key = some c →
        ∃ node, m.components.get? key = some node ∧ node.Holds hasher c := by
  obtain ⟨each, linked⟩ := build_ok_iff.mp built
  obtain ⟨keys, held⟩ := build_by_id built
  refine ⟨build_ok_iff.mpr ⟨?_, ?_⟩, contracts_by_id_entries contracts, keys, ?_⟩
  · intro c member
    exact each c (mem_of_last_of_each member)
  · rw [contracts_by_id_of_last]
    exact linked
  · intro key c found
    obtain ⟨node, there, holds⟩ := held (key, c) ((Table.get_eq_some_iff _ key c).mp found)
    exact ⟨node, (Table.get_eq_some_iff _ key node).mpr there, holds⟩

/-- A row that is described once more after its card, now with another component. -/
def describedTwice : List Contract :=
  let contract (id : String) (names : List String) : Contract :=
    { entryId := id, composition := { components := names }, source := .null }
  [contract "a/Row.tsx" ["Card"], contract "Card.tsx" ["Row", "Row"], contract "b/Row.tsx" [],
   contract "a/Row.tsx" ["Cell"], contract "Cell.tsx" []]

theorem later_contract_supersedes_of_described_twice :
    ∃ m, (build "" (.constant (.str "s") (.str "g")) true describedTwice).outcome = .ok m ∧
      (build "" (.constant (.str "s") (.str "g")) true
        (lastOfEach (·.entryId) describedTwice)).outcome = .ok m ∧
      (contractsById describedTwice).entries =
        (lastOfEach (·.entryId) describedTwice).map (fun c => (c.entryId, c)) ∧
      (contractsById describedTwice).keys = m.components.keys ∧
      ∀ key c, (contractsById describedTwice).get? key = some c →
        ∃ node, m.components.get? key = some node ∧
          node.Holds (.constant (.str "s") (.str "g")) c := by
  obtain ⟨m, built⟩ : ∃ m,
      (build "" (.constant (.str "s") (.str "g")) true describedTwice).outcome = .ok m := ⟨_, rfl⟩
  exact ⟨m, built, later_contract_supersedes built⟩

example : (lastOfEach (·.entryId) describedTwice).map
    (fun c => (c.entryId, c.composition.components)) =
    [("a/Row.tsx", ["Cell"]), ("Card.tsx", ["Row", "Row"]), ("b/Row.tsx", []), ("Cell.tsx", [])] := by
  decide +kernel

end Manifest

end ContractGraph
