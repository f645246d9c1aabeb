import ContractGraph.Collection.Bound

/-!
# Log events

What the program reports while it works. An event has a level, a name, the part of the program it
comes from, and fields in a fixed order.
-/

namespace ContractGraph

set_option autoImplicit false

inductive Level where
  | debug
  | info
  | warning
  deriving DecidableEq

inductive Event where
  | contractsLoaded (source : String) (count : Nat)
  | contractSuperseded (entryId : String)
  | ambiguousReference (name referrer chosen : String) (candidates : List String)
  | manifestBuilt (components roots leaves ambiguous : Nat)
  | manifestWritten (path : String) (components : Nat)
  | collectionTruncated (entryId : String) (maxNodes : Bound) (dropped : Nat)
  | versionLookupFailed (package : String)
  | packageFileUnreadable (path : String)
  | bundleTruncated (entryId : String) (maxNodes : Bound)
  | idsCollided (ids : List String)
  | folderFailed (contextFile error : String)
  deriving DecidableEq

def Level.word : Level → String
  | .debug => "debug"
  | .info => "info"
  | .warning => "warning"

def Level.severity : Level → Nat
  | .debug => 10
  | .info => 20
  | .warning => 30

namespace Event

def level : Event → Level
  | .ambiguousReference .. => .warning
  | .folderFailed .. => .warning
  | .manifestWritten .. => .info
  | .bundleTruncated .. => .info
  | _ => .debug

def name : Event → String
  | .contractsLoaded .. => "loader.contracts_loaded"
  | .contractSuperseded .. => "manifest.contract_superseded"
  | .ambiguousReference .. => "resolver.ambiguous"
  | .manifestBuilt .. => "manifest.built"
  | .manifestWritten .. => "manifest.written"
  | .collectionTruncated .. => "collector.truncated"
  | .versionLookupFailed .. => "packages.lookup_failed"
  | .packageFileUnreadable .. => "packages.lookup_failed"
  | .bundleTruncated .. => "bundle.truncated"
  | .idsCollided .. => "comparator.collisions"
  | .folderFailed .. => "comparator.folder_failed"

/-- The logger that an event is sent to. -/
def origin : Event → String
  | .contractsLoaded .. => "stampgraph.loader"
  | .contractSuperseded .. => "stampgraph.manifest"
  | .ambiguousReference .. => "stampgraph.manifest"
  | .manifestBuilt .. => "stampgraph.manifest"
  | .manifestWritten .. => "stampgraph.manifest"
  | .collectionTruncated .. => "stampgraph.collector"
  | .versionLookupFailed .. => "stampgraph.collector"
  | .packageFileUnreadable .. => "stampgraph.packages"
  | .bundleTruncated .. => "stampgraph.bundle"
  | .idsCollided .. => "stampgraph.comparator"
  | .folderFailed .. => "stampgraph.comparator"

def fields : Event → List (String × Json)
  | .contractsLoaded source count => [("source", .str source), ("count", .int count)]
  | .contractSuperseded entryId => [("entry_id", .str entryId)]
  | .ambiguousReference name referrer chosen candidates =>
    [("name", .str name), ("referenced_by", .str referrer), ("chosen", .str chosen),
      ("candidates", .strings candidates)]
  | .manifestBuilt components roots leaves ambiguous =>
    [("components", .int components), ("roots", .int roots), ("leaves", .int leaves),
      ("ambiguous", .int ambiguous)]
  | .manifestWritten path components => [("path", .str path), ("components", .int components)]
  | .collectionTruncated entryId maxNodes dropped =>
    [("entry_id", .str entryId), ("max_nodes", maxNodes.toValue), ("dropped", .int dropped)]
  | .versionLookupFailed package => [("package", .str package)]
  | .packageFileUnreadable path => [("path", .str path)]
  | .bundleTruncated entryId maxNodes =>
    [("entry_id", .str entryId), ("max_nodes", maxNodes.toValue)]
  | .idsCollided ids => [("ids", .strings ids)]
  | .folderFailed contextFile error =>
    [("context_file", .str contextFile), ("error", .str error)]

end Event

end ContractGraph
