import ContractGraph.Drift.Snapshot
import ContractGraph.Json.Order

/-!
# Comparing snapshots

Two snapshots are compared id by id on four independent signals: the semantic hash, the imports,
the hooks and the kind of exports. Ids on one side only are added or removed. Any difference means
drift.
-/

namespace ContractGraph

set_option autoImplicit false

inductive Delta where
  | hash (old new : String)
  | imports (old new : List Json)
  | hooks (old new : List Json)
  | exports (old new : ExportKind)
  deriving DecidableEq

structure ChangedComponent where
  id : String
  deltas : List Delta
  deriving DecidableEq

structure Comparison where
  added : List String
  removed : List String
  changed : List ChangedComponent
  deriving DecidableEq

namespace Delta

def word : Delta → String
  | .hash .. => "hash"
  | .imports .. => "imports"
  | .hooks .. => "hooks"
  | .exports .. => "exports"

def old : Delta → Json
  | .hash old _ => .str old
  | .imports old _ => .arr old
  | .hooks old _ => .arr old
  | .exports old _ => .str old.word

def new : Delta → Json
  | .hash _ new => .str new
  | .imports _ new => .arr new
  | .hooks _ new => .arr new
  | .exports _ new => .str new.word

def toValue (d : Delta) : Json :=
  .record [("type", .str d.word), ("old", d.old), ("new", d.new)]

end Delta

/-- The signals that differ, in their fixed order. -/
def DriftSignature.deltas (a b : DriftSignature) : List Delta :=
  (if a.semanticHash = b.semanticHash then [] else [.hash a.semanticHash b.semanticHash]) ++
  (if Json.sameItems a.imports b.imports then [] else [.imports a.imports b.imports]) ++
  (if Json.sameItems a.hooks b.hooks then [] else [.hooks a.hooks b.hooks]) ++
  (if a.exportKind = b.exportKind then [] else [.exports a.exportKind b.exportKind])

namespace Comparison

def passed (c : Comparison) : Bool := c.added.isEmpty && c.removed.isEmpty && c.changed.isEmpty

def statusWord (passed : Bool) : String := if passed then "PASS" else "DRIFT"

def changedToValue (c : ChangedComponent) : Json :=
  .record [("id", .str c.id), ("deltas", .arr (c.deltas.map Delta.toValue))]

def toValue (c : Comparison) : Json := .record [
  ("status", .str (statusWord c.passed)),
  ("added", .strings c.added),
  ("removed", .strings c.removed),
  ("changed", .arr (c.changed.map changedToValue))]

end Comparison

namespace Snapshot

/-- Ids of the first snapshot that the second one does not have. -/
def idsOnlyIn (a b : Snapshot) : List String :=
  Text.sorted (a.entries.keys.filter fun id => !b.entries.contains id)

def changedFrom (old new : Snapshot) (id : String) : Option ChangedComponent := do
  let a ← old.entries.get? id
  let b ← new.entries.get? id
  let deltas := a.deltas b
  if deltas.isEmpty then none else some ⟨id, deltas⟩

def compare (old new : Snapshot) : Comparison where
  added := new.idsOnlyIn old
  removed := old.idsOnlyIn new
  changed := (Text.sorted new.entries.keys).filterMap (changedFrom old new)

end Snapshot

/-- Takes a snapshot of both documents and compares them. -/
def compareBundles (old new : Json) : Logged Comparison := do
  let a ← Snapshot.ofBundles old
  let b ← Snapshot.ofBundles new
  return a.compare b

end ContractGraph
