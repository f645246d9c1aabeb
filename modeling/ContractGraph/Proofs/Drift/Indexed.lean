import ContractGraph.Drift.Snapshot
import ContractGraph.Proofs.Json.Members
import ContractGraph.Proofs.Outcome

/-!
# Snapshots of rows

Taking a snapshot first reads a row from every node that has an entry id, and then puts the rows one
after the other. Only the reading can fail. Every row that is put either brings a new entry or is
noted as a collision.
-/

namespace ContractGraph

set_option autoImplicit false

theorem Table.size_insert {κ α : Type} [BEq κ] (t : Table κ α) (key : κ) (value : α) :
    (t.insert key value).size = t.size + if t.contains key then 0 else 1 := by
  rcases t with ⟨entries, distinct⟩
  suffices lengths : (alterEntries key (fun _ => value) value entries).length = entries.length +
      if entries.any fun e => e.1 == key then 0 else 1 from lengths
  clear distinct
  induction entries with
  | nil => rfl
  | cons e rest ih =>
    rcases e with ⟨k, v⟩
    cases here : k == key with
    | true => simp [alterEntries, here]
    | false =>
      simp only [alterEntries, here, List.any_cons, Bool.false_or, Bool.false_eq_true, if_false,
        List.length_cons, ih]
      omega

namespace Snapshot

/-- The entry id of a node and the signature of its contract. -/
abbrev Row := String × DriftSignature

/-- The row of a node, none for one without an entry id. -/
def rowOf (node : Json) : Except ShapeFault (Option Row) := do
  let contract := (← node.member "contract").orElse (.obj [])
  let ownId ← contract.member "entryId"
  let entryId ← if ownId.truthy then .ok ownId else node.member "entryId"
  if entryId.truthy then return some (entryId.text, ← DriftSignature.ofDocument contract)
  else return none

def nodesOf (bundle : Json) : Except ShapeFault (List Json) := do
  let graph := (← bundle.member "graph").orElse (.obj [])
  (← graph.member "nodes").elementsOrNone

def rowsOf (bundle : Json) : Except ShapeFault (List (Option Row)) := do
  (← nodesOf bundle).mapM rowOf

def putRow (s : Snapshot) : Option Row → Snapshot
  | some (entryId, signature) => s.put entryId signature
  | none => s

/-- The signature in a row is that of the contract of the node. -/
theorem signature_of_row {node : Json} {row : Row} (read : rowOf node = .ok (some row)) :
    ∃ contract, node.member "contract" = .ok contract ∧
      DriftSignature.ofDocument (contract.orElse (.obj [])) = .ok row.2 := by
  rw [rowOf] at read
  obtain ⟨contract, embedded, read⟩ := ok_of_bind read
  obtain ⟨ownId, -, read⟩ := ok_of_bind read
  refine ⟨contract, embedded, ?_⟩
  have signed : ∀ entryId : Json, (if entryId.truthy = true then
      (do return some (entryId.text, ← DriftSignature.ofDocument (contract.orElse (.obj []))))
      else return none : Except ShapeFault (Option Row)) = .ok (some row) →
      DriftSignature.ofDocument (contract.orElse (.obj [])) = .ok row.2 := by
    intro entryId made
    split at made
    · obtain ⟨signature, taken, made⟩ := ok_of_bind made
      cases made
      exact taken
    · cases made
  split at read
  · exact signed ownId read
  · obtain ⟨entryId, -, read⟩ := ok_of_bind read
    exact signed entryId read

theorem add_node_eq (s : Snapshot) (node : Json) : s.addNode node = (rowOf node).map s.putRow := by
  rw [addNode, rowOf]
  rcases node.member "contract" with fault | contract
  · rfl
  simp only [bind, Except.bind]
  rcases (contract.orElse (.obj [])).member "entryId" with fault | ownId
  · rfl
  generalize contract.orElse (.obj []) = contract
  by_cases own : ownId.truthy = true
  · simp only [own, if_true]
    cases DriftSignature.ofDocument contract <;> rfl
  · simp only [own]
    rcases node.member "entryId" with fault | entryId
    · rfl
    by_cases given : entryId.truthy = true
    · simp only [given, if_true]
      cases DriftSignature.ofDocument contract <;> rfl
    · simp only [given]
      rfl

theorem add_bundle_eq (s : Snapshot) (bundle : Json) :
    s.addBundle bundle = (rowsOf bundle).map fun rows => rows.foldl putRow s := by
  have nodes : s.addBundle bundle = nodesOf bundle >>= fun nodes => nodes.foldlM addNode s := by
    rw [addBundle, nodesOf, bind_assoc]
    simp only [bind_assoc]
  rw [nodes, rowsOf]
  cases nodesOf bundle with
  | error fault => rfl
  | ok nodes => exact fold_of_map add_node_eq nodes s

/-- A snapshot that is taken of bundles has the rows of all their nodes, put in document order. -/
theorem of_bundles_ok_iff {bundles : Json} {s : Snapshot} :
    (ofBundles bundles).outcome = .ok s ↔ ∃ (items : List Json) (rows : List (List (Option Row))),
      bundles.elements = .ok items ∧
      items.mapM rowsOf = .ok rows ∧ s = rows.flatten.foldl putRow {} := by
  have taken : ∀ items : List Json, items.foldlM addBundle ({} : Snapshot) =
      (items.mapM rowsOf).map fun rows => rows.flatten.foldl putRow {} := by
    intro items
    simpa only [List.foldl_flatten] using fold_of_map add_bundle_eq items {}
  have logged : (ofBundles bundles).outcome =
      ((bundles.elements >>= fun items => items.foldlM addBundle {}).mapError Fault.shape) := by
    rw [ofBundles, Logged.outcome_bind, Logged.outcome_lift]
    cases bundles.elements >>= fun items => items.foldlM addBundle {} with
    | error fault => rfl
    | ok s => cases h : s.collisions.isEmpty <;> simp [Except.mapError, Except.bind, h]
  rw [logged]
  constructor
  · intro done
    cases whole : bundles.elements >>= fun items => items.foldlM addBundle {} with
    | error fault =>
      rw [whole] at done
      cases done
    | ok s' =>
      rw [whole] at done
      cases done
      obtain ⟨items, elements, folded⟩ := ok_of_bind whole
      rw [taken] at folded
      obtain ⟨rows, read, rfl⟩ := ok_of_map folded
      exact ⟨items, rows, elements, read, rfl⟩
  · rintro ⟨items, rows, elements, read, rfl⟩
    rw [elements]
    simp only [bind, Except.bind, taken, read]
    rfl

/-- How many rows a snapshot has taken in. -/
def taken (s : Snapshot) : Nat := s.entries.size + s.collisions.length

theorem taken_put (s : Snapshot) (entryId : String) (signature : DriftSignature) :
    (s.put entryId signature).taken = s.taken + 1 := by
  simp only [taken, put, Table.size_insert]
  cases s.entries.contains (Text.lower entryId) <;> simp <;> omega

theorem taken_put_row (s : Snapshot) (row : Option Row) :
    (s.putRow row).taken = s.taken + [row].countP Option.isSome := by
  cases row with
  | none => rfl
  | some row => exact s.taken_put row.1 row.2

/-- Every row is accounted for, by an entry or by a collision. -/
theorem taken_rows (s : Snapshot) (rows : List (Option Row)) :
    (rows.foldl putRow s).taken = s.taken + rows.countP Option.isSome := by
  induction rows generalizing s with
  | nil => rfl
  | cons row rest ih =>
    rw [List.foldl_cons, ih, taken_put_row, Nat.add_assoc, ← List.countP_append, List.singleton_append]

end Snapshot

end ContractGraph
