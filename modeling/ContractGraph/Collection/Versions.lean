import ContractGraph.Collection.Basic
import ContractGraph.Package.Versions

/-!
# Collecting with versions

The missing packages of a collection are looked up one after the other, in the order in which they
are reported. A lookup that fails is logged and leaves its record without a version; nothing else
of the collection changes.
-/

namespace ContractGraph

set_option autoImplicit false

/-- A way to look a version up, with a state that it may change. -/
abbrev VersionLookup (σ : Type) := σ → (package : String) → VersionAnswer σ

/-- Looks up the version of one record, if it names a package. -/
def MissingDependency.withVersion {σ : Type} (lookup : VersionLookup σ) (state : σ)
    (m : MissingDependency) : σ × List Event × MissingDependency :=
  match m.packageName with
  | none => (state, [], m)
  | some package =>
    let answer := lookup state package
    match answer.version with
    | .ok version => (answer.state, answer.events, { m with packageVersion := version })
    | .error _ => (answer.state, answer.events ++ [.versionLookupFailed package], m)

def addVersions {σ : Type} (lookup : VersionLookup σ) (state : σ) :
    List MissingDependency → σ × List Event × List MissingDependency
  | [] => (state, [], [])
  | m :: rest =>
    let (state, events, m) := m.withVersion lookup state
    let (state, more, rest) := addVersions lookup state rest
    (state, events ++ more, m :: rest)

/-- A collection whose missing packages have the versions that the lookup gives. -/
def Collection.withVersions {σ : Type} (lookup : VersionLookup σ) (state : σ)
    (collected : Logged Collection) : σ × Logged Collection :=
  match collected.outcome with
  | .error _ => (state, collected)
  | .ok c =>
    let (state, events, missing) := addVersions lookup state c.missing
    (state, ⟨collected.events ++ events, .ok { c with missing }⟩)

/-- A lookup that never succeeds. -/
def brokenLookup {σ : Type} : VersionLookup σ := fun state _ => ⟨state, [], .error .notUtf8⟩

/-- Where the versions of missing packages are looked up: nowhere, in the package file of a root
folder, or in a way that never succeeds. -/
inductive VersionSource where
  | nowhere
  | root (folder : String)
  | broken
  deriving DecidableEq

/-- The source that a value names as a root: none for null, and no folder is found under a value
that is no text. -/
def VersionSource.ofValue : Json → VersionSource
  | .null => .nowhere
  | .str folder => .root folder
  | _ => .broken

/-- A collection with the versions of a source. -/
def Collection.withVersionsOf (t : FileTree) (source : VersionSource) (cache : VersionCache)
    (collected : Logged Collection) : VersionCache × Logged Collection :=
  match source with
  | .nowhere => (cache, collected)
  | .root folder =>
    withVersions (fun cache package => cache.version t (.ofText folder) package) cache collected
  | .broken => withVersions brokenLookup cache collected

end ContractGraph
