import ContractGraph.Collection.Limits
import ContractGraph.Manifest.Basic
import ContractGraph.Package.Name

/-!
# Collecting dependencies

A bounded breadth-first walk from an entry: level by level, and inside a level in the order in
which the dependencies were declared. The walk visits the levels within the depth limit, and it
stops where it stands as soon as a further component would be visited when there is no more room.
Dependencies are followed from every level that does not reach the limit. Under a limit between two
whole numbers that is also the last visited level, whose dependencies are then looked at and not
visited.

A dependency name that resolves to nothing is missing; each name is reported once, for the first
component that used it. An entry that is not found is missing too.
-/

namespace ContractGraph

set_option autoImplicit false

inductive MissingReason where
  | entryNotFound
  | noContract
  | contractNotLoaded
  deriving DecidableEq

def MissingReason.text : MissingReason → String
  | .entryNotFound => "entry not found in manifest"
  | .noContract => "no contract found for referenced name"
  | .contractNotLoaded => "contract not loaded"

structure MissingDependency where
  name : Json
  reason : MissingReason
  referrer : Option String := none
  packageName : Option String := none
  packageVersion : Option String := none
  deriving DecidableEq

def optionalMember (name : String) : Option String → List (String × Json)
  | some value => [(name, .str value)]
  | none => []

def MissingDependency.toValue (m : MissingDependency) : Json :=
  .record ([("name", m.name), ("reason", .str m.reason.text)] ++
    optionalMember "referencedBy" m.referrer ++ optionalMember "packageName" m.packageName ++
    optionalMember "packageVersion" m.packageVersion)

/-- The visited keys with their levels, in the order of the visit. -/
structure Collection where
  entryId : Json
  visited : List (String × Nat) := []
  missing : List MissingDependency := []
  truncated : Bool := false
  deriving DecidableEq

def Collection.visitedIds (c : Collection) : List String := c.visited.map (·.1)

namespace Collection

/-- What a walk has met so far. -/
structure Walk where
  visited : List (String × Nat) := []
  missing : List MissingDependency := []

def Walk.hasVisited (w : Walk) (key : String) : Bool := w.visited.any fun v => v.1 == key

def Walk.visit (w : Walk) (key : String) (level : Nat) : Walk :=
  { w with visited := w.visited ++ [(key, level)] }

/-- Reports a missing dependency unless its name was reported before. -/
def Walk.report (w : Walk) (m : MissingDependency) : Except ShapeFault Walk := do
  if ← m.name.amongKeys (w.missing.map (·.name)) then return w
  else return { w with missing := w.missing ++ [m] }

/-- The package that a dependency looks like. -/
def packageOf : Json → Option String
  | .str name => PackageName.ofSpecifier? name
  | _ => none

/-- Follows one dependency: it is queued for the next level, or missing. -/
def followDependency (r : Resolver) (key : String) (state : Walk × List String) (name : Json) :
    Except ShapeFault (Walk × List String) := do
  match ← r.findValue name key with
  | some target =>
    if state.1.hasVisited target.key then return state
    else return (state.1, state.2 ++ [target.key])
  | none =>
    let walk ← state.1.report {
      name, reason := .noContract, referrer := some key, packageName := packageOf name }
    return (walk, state.2)

/-- Where a level ends: with the queue of the next one, or with the number of queued ids that were
dropped because there was no more room. -/
inductive LevelEnd where
  | complete (next : List String)
  | cut (dropped : Nat)

/-- What the walks of one collection share. -/
structure Scope where
  manifest : Manifest
  resolver : Resolver
  room : Nat

def Scope.dependenciesOf (s : Scope) (key : String) : List Json :=
  ((s.manifest.components.get? key).map (·.dependencies)).getD []

/-- Visits the queued ids of one level. Dependencies are followed unless it is the last level. -/
def walkLevel (s : Scope) (level : Nat) (last : Bool) :
    List String → Walk → List String → Except ShapeFault (Walk × LevelEnd)
  | [], w, next => .ok (w, .complete next)
  | id :: queue, w, next => do
    let key? := s.resolver.lookup id
    if w.hasVisited (key?.getD id) then walkLevel s level last queue w next
    else if s.room ≤ w.visited.length then
      return (w, .cut (queue.length + next.length + 1))
    else
      match key? with
      | none =>
        let w ← w.report { name := .str id, reason := .entryNotFound }
        walkLevel s level last queue w next
      | some key =>
        let w := w.visit key level
        if last then walkLevel s level last queue w next
        else
          let (w, next) ← (s.dependenciesOf key).foldlM (followDependency s.resolver key) (w, next)
          walkLevel s level last queue w next

/-- Walks the queued ids and, while there are any, the levels below. From the last level
dependencies are followed only if it does not reach the limit. -/
def walkLevels (s : Scope) (reached : Bool) :
    (levelsBelow level : Nat) → List String → Walk → Except ShapeFault (Walk × Option Nat)
  | 0, level, queue, w => do
    match ← walkLevel s level reached queue w [] with
    | (w, .complete _) => return (w, none)
    | (w, .cut dropped) => return (w, some dropped)
  | levelsBelow + 1, level, queue, w => do
    match ← walkLevel s level false queue w [] with
    | (w, .complete []) => return (w, none)
    | (w, .complete next) => walkLevels s reached levelsBelow (level + 1) next w
    | (w, .cut dropped) => return (w, some dropped)

/-- The walk from an entry, and how many queued ids were dropped if it was cut. -/
def walk (m : Manifest) (entryId : String) (limits : Limits) :
    Except ShapeFault (Walk × Option Nat) := do
  let resolver ← m.resolver
  let size := m.components.size
  walkLevels ⟨m, resolver, limits.room size⟩ (!limits.depth.isFractional) (limits.levels size) 0
    [entryId] {}

end Collection

namespace Manifest

/-- Collects the dependencies of an entry within limits. -/
def collect (m : Manifest) (entryId : String) (limits : Limits) : Logged Collection := do
  let (w, dropped?) ← (Collection.walk m entryId limits : Except ShapeFault _)
  let c : Collection := {
    entryId := .str entryId
    visited := w.visited, missing := w.missing, truncated := dropped?.isSome }
  match dropped? with
  | some dropped => Logged.emit (.collectionTruncated entryId limits.nodes dropped)
  | none => Pure.pure ()
  return c

/-- Collects from a value where an entry should stand. One that is not truthy is missing, provided
that it can be a key, and no other value that is no text can be looked up. -/
def collectGiven (m : Manifest) (entry : Json) (limits : Limits) : Logged Collection :=
  match entry with
  | .str entryId => m.collect entryId limits
  | v => do
    let _ ← m.resolver
    let _ ← (v.textFor "replace" : Except ShapeFault String)
    let _ ← (v.asKey : Except ShapeFault Key)
    return { entryId := v, missing := [{ name := v, reason := .entryNotFound }] }

end Manifest

end ContractGraph
