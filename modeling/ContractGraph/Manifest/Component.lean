import ContractGraph.Contract.Fingerprint

/-!
# Components of a manifest

A component is one node of the dependency graph: `dependencies` are its outgoing edges by name,
`usedBy` its incoming edges by key. A component that was made from a contract holds texts only. One
that was loaded holds whatever its document holds, so every field is a JSON value; a hash that is
null is not there.
-/

namespace ContractGraph

set_option autoImplicit false

structure Component where
  entryId : Json
  description : Json := .str ""
  dependencies : List Json := []
  usedBy : List Json := []
  imports : List Json := []
  routes : List Json := []
  semanticHash : Json := .str ""
  structureHash : Json := .null
  signatureHash : Json := .null
  deriving DecidableEq

namespace Component

/-- The component of a contract, with no incoming edges yet. -/
def ofContract (hasher : Hasher) (c : Contract) : Except ShapeFault Component := do
  let structureHash ← hasher.structureHash c.composition
  let signatureHash ← hasher.signatureHash c.interface
  return {
    entryId := .str c.entryId
    description := .str c.description
    dependencies := c.composition.components.map .str
    imports := c.composition.imports.map .str
    routes := c.usedIn.map .str
    semanticHash := .str c.semanticHash
    structureHash, signatureHash }

def ofValue (v : Json) : Except ShapeFault Component := do
  let entryId ← v.requiredMember "entryId"
  let fields ← v.fieldsFor "get"
  let dependencies ← (fields.getD "dependencies").elementsOrNone
  let usedBy ← (fields.getD "usedBy").elementsOrNone
  let imports ← (fields.getD "imports").elementsOrNone
  let routes ← (fields.getD "routes").elementsOrNone
  return {
    entryId
    description := (fields.get? "description").getD (.str "")
    dependencies, usedBy, imports, routes
    semanticHash := (fields.get? "semanticHash").getD (.str "")
    structureHash := fields.getD "structureHash"
    signatureHash := fields.getD "signatureHash" }

/-- A hash as a member, when it is there. -/
def hashMember (name : String) : Json → List (String × Json)
  | .null => []
  | hash => [(name, hash)]

def toValue (c : Component) : Json :=
  .record ([
    ("entryId", c.entryId),
    ("description", c.description),
    ("dependencies", .arr c.dependencies),
    ("usedBy", .arr c.usedBy),
    ("imports", .arr c.imports),
    ("routes", .arr c.routes),
    ("semanticHash", c.semanticHash)] ++
    hashMember "structureHash" c.structureHash ++ hashMember "signatureHash" c.signatureHash)

/-- The dependencies that are names. -/
def dependencyNames (c : Component) : List String :=
  c.dependencies.filterMap Json.string?

/-- Notes an incoming edge, once. -/
def addUser (key : String) (c : Component) : Component :=
  if Json.str key ∈ c.usedBy then c else { c with usedBy := c.usedBy ++ [.str key] }

/-- The id that a component can be found by. A value that is not truthy is never looked up, but it
has to be able to be a key. -/
def findableId (c : Component) : Except ShapeFault (Option String) :=
  match c.entryId with
  | .str id => .ok (some id)
  | v => if v.truthy then .error (.noAttribute v.shape "replace") else v.asKey.map fun _ => none

end Component

end ContractGraph
