import ContractGraph.Contract.Basic
import ContractGraph.Fault
import ContractGraph.Text.LowerCase
import ContractGraph.Text.Sorted

/-!
# Snapshots

A snapshot flattens the nodes of bundles into one table from lower-case entry ids to drift
signatures, the reduced view of a contract that decides whether it drifted. Of several nodes with
one id the last one counts, and every replacement is noted as a collision. Nodes without an entry
id are passed over.
-/

namespace ContractGraph

set_option autoImplicit false

structure DriftSignature where
  semanticHash : String
  imports : List Json
  hooks : List Json
  exportKind : ExportKind
  deriving DecidableEq

structure Snapshot where
  entries : Table String DriftSignature := .empty
  collisions : List String := []

namespace DriftSignature

/-- The signature of a contract document. -/
def ofDocument (d : Json) : Except ShapeFault DriftSignature := do
  let composition := (← d.renamedMember "composition" "version").orElse (.obj [])
  let semanticHash := (← d.member "semanticHash").textOr ""
  let imports ← (← composition.member "imports").elementsOrNone
  let hooks ← (← composition.member "hooks").elementsOrNone
  let exports := Exports.ofValue (← d.member "exports")
  return { semanticHash, imports, hooks, exportKind := exports.kind }

end DriftSignature

namespace Snapshot

/-- Puts a signature under an id that is lower-cased first. -/
def put (s : Snapshot) (entryId : String) (signature : DriftSignature) : Snapshot :=
  let key := Text.lower entryId
  { entries := s.entries.insert key signature
    collisions := if s.entries.contains key then s.collisions ++ [key] else s.collisions }

/-- Adds a node of a bundle, if it has an entry id of its contract or of its own. -/
def addNode (s : Snapshot) (node : Json) : Except ShapeFault Snapshot := do
  let contract := (← node.member "contract").orElse (.obj [])
  let ownId ← contract.member "entryId"
  let entryId ← if ownId.truthy then .ok ownId else node.member "entryId"
  if entryId.truthy then
    return s.put entryId.text (← DriftSignature.ofDocument contract)
  else return s

def addBundle (s : Snapshot) (bundle : Json) : Except ShapeFault Snapshot := do
  let graph := (← bundle.member "graph").orElse (.obj [])
  let nodes ← (← graph.member "nodes").elementsOrNone
  nodes.foldlM addNode s

/-- The snapshot of bundles that are given as a document. -/
def ofBundles (bundles : Json) : Logged Snapshot := do
  let s ← (do (← bundles.elements).foldlM addBundle {} : Except ShapeFault Snapshot)
  if !s.collisions.isEmpty then
    Logged.emit (.idsCollided (Text.sorted s.collisions.eraseDups))
  return s

/-- Whether there is an entry under a value. None is under a value that is no text, but the value
has to be able to be a key. -/
def containsGiven (s : Snapshot) (id : Json) : Except ShapeFault Bool :=
  match id with
  | .str id => .ok (s.entries.contains id)
  | v => v.asKey.map fun _ => false

end Snapshot

end ContractGraph
