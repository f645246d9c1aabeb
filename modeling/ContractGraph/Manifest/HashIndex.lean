import ContractGraph.Manifest.Component
import ContractGraph.Table

/-!
# Hash index

For each structure hash and each signature hash, the keys of the components that share it, in the
order of the components. It serves similarity, never identity, and an empty hash is not indexed.
-/

namespace ContractGraph

set_option autoImplicit false

structure HashIndex where
  structures : Table Key (List Json) := .empty
  signatures : Table Key (List Json) := .empty
  deriving DecidableEq

namespace HashIndex

/-- Puts a component key under a hash, unless the hash is empty. -/
def addHash (t : Table Key (List Json)) (hash : Json) (key : String) :
    Except ShapeFault (Table Key (List Json)) :=
  if hash.truthy then hash.asKey.map fun k => t.append k (.str key) else .ok t

def add (index : HashIndex) (entry : String × Component) : Except ShapeFault HashIndex := do
  let structures ← addHash index.structures entry.2.structureHash entry.1
  let signatures ← addHash index.signatures entry.2.signatureHash entry.1
  return { structures, signatures }

def ofComponents (components : Table String Component) : Except ShapeFault HashIndex :=
  components.entries.foldlM add {}

def bucketsToValue (t : Table Key (List Json)) : Json :=
  .obj (t.entries.map fun e => (e.1, .arr e.2))

def toValue (index : HashIndex) : Json := .record [
  ("structureHash", bucketsToValue index.structures),
  ("signatureHash", bucketsToValue index.signatures)]

def addBucket (t : Table Key (List Json)) (field : Key × Json) :
    Except ShapeFault (Table Key (List Json)) :=
  field.2.elements.map (t.insert field.1 ·)

def bucketsOfValue (v : Json) : Except ShapeFault (Table Key (List Json)) := do
  let fields ← (v.orElse (.obj [])).fieldsFor "items"
  fields.foldlM addBucket .empty

def ofValue (v : Json) : Except ShapeFault HashIndex := do
  let structures ← bucketsOfValue (← v.member "structureHash")
  let signatures ← bucketsOfValue (← v.member "signatureHash")
  return { structures, signatures }

end HashIndex

end ContractGraph
