import ContractGraph.Fault
import ContractGraph.Manifest.Basic

/-!
# Building a manifest

First every contract becomes a component, a later contract replacing an earlier one with the same
entry id. Then, all components being there, every dependency name is resolved and each resolved
reference notes its incoming edge. So whether an edge exists does not depend on the order of the
contracts; the order only decides which of several candidates is chosen.
-/

namespace ContractGraph

set_option autoImplicit false

namespace Manifest

def addContract (hasher : Hasher) (t : Table String Component) (c : Contract) :
    Logged (Table String Component) := do
  if t.contains c.entryId then Logged.emit (.contractSuperseded c.entryId)
  let component ← (Component.ofContract hasher c : Except ShapeFault Component)
  return t.insert c.entryId component

/-- A dependency name that was resolved. -/
structure Reference where
  referrer : String
  name : String
  target : Match

def referencesOf (r : Resolver) (key : String) (names : List String) : List Reference :=
  names.filterMap fun name => (r.find? name (some key)).map fun target => ⟨key, name, target⟩

/-- All resolved references, component by component. -/
def references (r : Resolver) (components : Table String Component) : List Reference :=
  components.entries.flatMap fun e => referencesOf r e.1 e.2.dependencyNames

def linkReference (t : Table String Component) (ref : Reference) : Table String Component :=
  t.modify ref.target.key (.addUser ref.referrer)

def Reference.toWarning (ref : Reference) : AmbiguousReference :=
  ⟨ref.name, ref.referrer, ref.target.key, ref.target.candidates⟩

/-- One warning for each pair of a component and a name that has several candidates. -/
def warningsOf (refs : List Reference) : List AmbiguousReference :=
  ((refs.filter (·.target.ambiguous)).map Reference.toWarning).eraseDups

def keysWhere (p : Component → Bool) (components : Table String Component) : List Json :=
  (Text.sorted ((components.filter fun _ c => p c).keys)).map .str

/-- The manifest of components that were made from contracts. -/
def ofComponents (now : String) (withIndex : Bool) (components : Table String Component) :
    Except ShapeFault Manifest := do
  let ids := components.entries.map fun e => (e.1, some e.1)
  let refs := references (.ofIds ids) components
  let linked := refs.foldl linkReference components
  let hashIndex ← if withIndex then (HashIndex.ofComponents linked).map some else .ok none
  return {
    components := linked
    roots := keysWhere (·.usedBy.isEmpty) linked
    leaves := keysWhere (·.dependencies.isEmpty) linked
    hashIndex
    generatedAt := .str now
    version := .str currentVersion
    warnings := warningsOf refs }

def reportWarning (w : AmbiguousReference) : Logged Unit :=
  .emit (.ambiguousReference w.name w.referrer w.chosen w.candidates)

/-- The manifest of a project that has the given contracts. -/
def build (now : String) (hasher : Hasher) (withIndex : Bool) (contracts : List Contract) :
    Logged Manifest := do
  let components ← contracts.foldlM (addContract hasher) .empty
  let m ← (ofComponents now withIndex components : Except ShapeFault Manifest)
  m.warnings.forM reportWarning
  Logged.emit (.manifestBuilt m.components.size m.roots.length m.leaves.length m.warnings.length)
  return m

end Manifest

end ContractGraph
