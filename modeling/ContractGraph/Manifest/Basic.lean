import ContractGraph.Manifest.HashIndex
import ContractGraph.Resolver

/-!
# Manifests

The dependency graph of a whole project: its components by key, the keys that nothing uses (roots)
and the keys that use nothing (leaves). References that had more than one candidate are kept as
warnings while the manifest lives; its document does not hold them.
-/

namespace ContractGraph

set_option autoImplicit false

structure AmbiguousReference where
  name : String
  referrer : String
  chosen : String
  candidates : List String
  deriving DecidableEq

structure Manifest where
  components : Table String Component
  roots : List Json := []
  leaves : List Json := []
  hashIndex : Option HashIndex := none
  generatedAt : Json
  version : Json
  warnings : List AmbiguousReference := []
  deriving DecidableEq

namespace Manifest

def currentVersion : String := "0.3"

/-- The resolver of the components. -/
def resolver (m : Manifest) : Except ShapeFault Resolver := do
  let ids ← m.components.entries.mapM fun e => e.2.findableId.map fun id => (e.1, id)
  return .ofIds ids

/-- The roots that are leaves as well. -/
def isolated (m : Manifest) : Except ShapeFault (List Json) := do
  let _ ← m.leaves.mapM Json.asKey
  m.roots.filterM fun root => root.amongKeys m.leaves

def toDocument (m : Manifest) : Json :=
  .record ([
    ("version", m.version),
    ("generatedAt", m.generatedAt),
    ("totalComponents", .int m.components.size),
    ("components", .record (m.components.entries.map fun e => (e.1, e.2.toValue))),
    ("graph", .record [("roots", .arr m.roots), ("leaves", .arr m.leaves)])] ++
    match m.hashIndex with
    | some index => [("hashIndex", index.toValue)]
    | none => [])

/-- The name that a member key stands for. -/
def componentKey (k : Key) : String := (Json.ofKey k).text

def addComponent (t : Table String Component) (field : Key × Json) :
    Except ShapeFault (Table String Component) :=
  (Component.ofValue field.2).map (t.insert (componentKey field.1) ·)

def componentsOfValue (v : Json) : Except ShapeFault (Table String Component) := do
  let fields ← (v.orElse (.obj [])).fieldsFor "items"
  fields.foldlM addComponent .empty

def hashIndexOfValue (v : Json) : Except ShapeFault (Option HashIndex) :=
  if v.truthy then (HashIndex.ofValue v).map some else .ok none

def ofDocument (d : Json) : Except ShapeFault Manifest := do
  let fields ← d.fieldsFor "get"
  let graph := (fields.getD "graph").orElse (.obj [])
  let components ← componentsOfValue (fields.getD "components")
  let roots ← (← graph.member "roots").elementsOrNone
  let leaves ← (← graph.member "leaves").elementsOrNone
  let hashIndex ← hashIndexOfValue (fields.getD "hashIndex")
  return {
    components, roots, leaves, hashIndex
    generatedAt := (fields.get? "generatedAt").getD (.str "")
    version := (fields.get? "version").getD (.str currentVersion) }

end Manifest

end ContractGraph
