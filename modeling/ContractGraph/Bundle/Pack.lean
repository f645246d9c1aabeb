import ContractGraph.Collection.Versions

/-!
# Packing bundles

A bundle document holds the contracts that a collection visited, sorted by key, the dependency
edges between them, and what is missing. A visited component without a contract is an error when
packing is strict; otherwise it is left out and, unless that is allowed, reported as missing. There
is no bundle without a contract.

The hash of a bundle is taken of its entry ids with their semantic hashes, its depth and the
schema version, whatever the order of the nodes.
-/

namespace ContractGraph

set_option autoImplicit false

namespace Bundle

def documentType : String := "LogicStampBundle"

def schemaVersion : String := "0.1"

def source : String := "stampgraph@0.1.0"

/-- What the bundle hash knows of a node. -/
structure HashedNode where
  entryId : Json
  semanticHash : Json

def HashedNode.toValue (n : HashedNode) : Json :=
  .record [("entryId", n.entryId), ("semanticHash", n.semanticHash)]

def HashedNode.ofValue (v : Json) : Except ShapeFault HashedNode := do
  let entryId ← v.requiredMember "entryId"
  let fields ← v.fieldsFor "get"
  return ⟨entryId, (fields.get? "semanticHash").getD (.str "")⟩

/-- The text that a bundle hash is taken of. -/
def hashedText (nodes : List HashedNode) (depth version : Json) : Except ShapeFault String :=
  match Json.sortOn? (·.entryId) nodes with
  | none => .error .notOrdered
  | some nodes => (Json.record [
      ("schemaVersion", version),
      ("depth", depth),
      ("nodes", .arr (nodes.map HashedNode.toValue))]).stableText

def hash (nodes : List HashedNode) (depth version : Json) : Except ShapeFault String :=
  (hashedText nodes depth version).map (Hash.ofText Hash.bundlePrefix)

/-- The text for nodes that are given as a document. -/
def hashedTextOfValue (nodes depth version : Json) : Except ShapeFault String := do
  let nodes ← (← nodes.elements).mapM HashedNode.ofValue
  hashedText nodes depth version

/-- The hash of nodes that are given as a document. -/
def hashOfValue (nodes depth version : Json) : Except ShapeFault String :=
  (hashedTextOfValue nodes depth version).map (Hash.ofText Hash.bundlePrefix)

/-- A packed contract under its key. -/
structure PackedNode where
  key : String
  contract : Json
  deriving DecidableEq

def PackedNode.toValue (n : PackedNode) : Json :=
  .record [("entryId", .str n.key), ("contract", n.contract)]

def PackedNode.hashed (n : PackedNode) : HashedNode :=
  ⟨.str n.key, (Fields.get? n.contract.fieldsOrNone "semanticHash").getD (.str "")⟩

/-- Order of pairs of texts, by the first text and then by the second. -/
def edgeAtMost (a b : String × String) : Bool :=
  if a.1 = b.1 then Text.atMost a.2 b.2 else Text.atMost a.1 b.1

end Bundle

/-- A packed subgraph. -/
structure Bundle where
  entryId : String
  depth : Bound
  createdAt : String
  bundleHash : String
  nodes : List Bundle.PackedNode
  edges : List (String × String)
  missing : List MissingDependency
  truncated : Bool
  deriving DecidableEq

namespace Bundle

def toDocument (b : Bundle) : Json := .record [
  ("type", .str documentType),
  ("schemaVersion", .str schemaVersion),
  ("entryId", .str b.entryId),
  ("depth", b.depth.toValue),
  ("createdAt", .str b.createdAt),
  ("bundleHash", .str b.bundleHash),
  ("graph", .record [
    ("nodes", .arr (b.nodes.map PackedNode.toValue)),
    ("edges", .arr (b.edges.map fun e => .strings [e.1, e.2]))]),
  ("meta", .record [
    ("missing", .arr (b.missing.map MissingDependency.toValue)),
    ("source", .str source),
    ("truncated", .bool b.truncated)])]

/-- The edges that leave one component and stay inside the packed keys. -/
def edgesFrom (resolver : Except ShapeFault Resolver) (m : Manifest) (packed : List String)
    (key : String) : Except ShapeFault (List (String × String)) := do
  let names := ((m.components.get? key).map (·.dependencies)).getD []
  if names.isEmpty then return []
  let r ← resolver
  let targets ← names.mapM fun name => (r.findValue name key).map fun t => t.map (·.key)
  return targets.filterMap fun target =>
    match target with
    | some target => if target ∈ packed then some (key, target) else none
    | none => none

/-- The dependency edges whose both ends are packed, sorted, each once. -/
def edgesAmong (m : Manifest) (packed : List String) : Except ShapeFault (List (String × String)) := do
  let found ← packed.mapM (edgesFrom m.resolver m packed)
  return found.flatten.eraseDups.mergeSort edgeAtMost

/-- The edges among values where packed keys should stand. Only texts are keys, but every value has
to be able to be one. -/
def edgesAmongGiven (m : Manifest) (packed : Json) : Except ShapeFault (List (String × String)) := do
  let packed ← packed.elements
  let _ ← packed.mapM Json.asKey
  edgesAmong m (packed.filterMap Json.string?)

/-- How a bundle is packed. Limits, or why there are none, count once the entry is known. -/
structure PackOptions where
  limits : Except Fault Limits
  versions : VersionSource := .nowhere
  allowMissing : Bool := false
  strict : Bool := false

/-- The visited keys with their contracts. -/
def packedNodes (contracts : Table String Contract) (visited : List String) : List PackedNode :=
  visited.filterMap fun key => (contracts.get? key).map fun c => ⟨key, c.source⟩

/-- The visited keys without a contract. -/
def unpacked (contracts : Table String Contract) (visited : List String) : List String :=
  visited.filter fun key => !contracts.contains key

/-- The bundle of a collection from an entry key. -/
def assemble (now : String) (m : Manifest) (contracts : Table String Contract)
    (options : PackOptions) (limits : Limits) (key : String) (c : Collection) : Logged Bundle := do
  let absent := unpacked contracts c.visitedIds
  match options.strict, absent with
  | true, id :: _ => .fail (.missingContract id)
  | _, _ =>
    let nodes := packedNodes contracts c.visitedIds
    if nodes.isEmpty then .fail (.missingContract key)
    else
      let nodes := Text.sortedOn (·.key) nodes
      let edges ← (edgesAmong m (nodes.map (·.key)) : Except ShapeFault _)
      if c.truncated then Logged.emit (.bundleTruncated key limits.nodes)
      let bundleHash ←
        (hash (nodes.map PackedNode.hashed) limits.depth.toValue (.str schemaVersion) :
          Except ShapeFault String)
      let reported : List MissingDependency :=
        if options.allowMissing then []
        else absent.map fun id => { name := .str id, reason := .contractNotLoaded }
      return {
        entryId := key
        depth := limits.depth
        createdAt := now
        bundleHash, nodes, edges
        missing := c.missing ++ reported
        truncated := c.truncated }

/-- The key that an entry means. -/
def entryKey (m : Manifest) (entryId : String) : Logged String := do
  let r ← m.resolver
  match r.resolve (EntryId.normalize entryId) none with
  | some key => return key
  | none => .fail (.componentNotFound entryId m.components.keys)

/-- The key that a value means where an entry should stand. -/
def entryKeyGiven (m : Manifest) (entry : Json) : Logged String :=
  match entry with
  | .str entryId => entryKey m entryId
  | v => do
    let _ ← m.resolver
    let _ ← (v.textFor "replace" : Except ShapeFault String)
    .fail (.componentNotFound v.text m.components.keys)

/-- Collects the subgraph of an entry key and packs it. -/
def packFrom (now : String) (t : FileTree) (cache : VersionCache) (m : Manifest)
    (contracts : Table String Contract) (entry : Logged String) (options : PackOptions) :
    VersionCache × Logged Bundle :=
  match entry.outcome, options.limits with
  | .error e, _ => (cache, .fail e)
  | .ok _, .error e => (cache, .fail e)
  | .ok key, .ok limits =>
    let (cache, collected) :=
      Collection.withVersionsOf t options.versions cache (m.collect key limits)
    (cache, collected >>= assemble now m contracts options limits key)

/-- Collects the subgraph of an entry and packs it. -/
def pack (now : String) (t : FileTree) (cache : VersionCache) (m : Manifest)
    (contracts : Table String Contract) (entryId : String) (options : PackOptions) :
    VersionCache × Logged Bundle :=
  packFrom now t cache m contracts (entryKey m entryId) options

end Bundle

end ContractGraph
