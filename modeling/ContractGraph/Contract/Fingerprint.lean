import ContractGraph.Contract.Basic
import ContractGraph.Digest.Form
import ContractGraph.Text.Sorted

/-!
# Fingerprints of contracts

The structure of a component is what it is built from, imports excluded; its signature is the
interface; its semantics are both under a schema version. Each has a stable text that the order of
extraction does not change, and the hash of that text.
-/

namespace ContractGraph

set_option autoImplicit false

def fingerprintVersion : String := "0.3"

namespace Composition

def structureValue (c : Composition) : Json := .record [
  ("variables", .strings (Text.sorted c.variableNames)),
  ("hooks", .strings (Text.sorted c.hooks)),
  ("components", .strings (Text.sorted c.components)),
  ("functions", .strings (Text.sorted c.functions))]

def structureText (c : Composition) : Except ShapeFault String := c.structureValue.stableText

def structureHash (c : Composition) : Except ShapeFault String :=
  c.structureText.map (Hash.ofText Hash.contractPrefix)

end Composition

namespace Interface

def signatureValue (i : Interface) : Json := .record [
  ("props", .obj i.props),
  ("events", .obj i.events),
  ("state", (i.state.map .obj).getD .null)]

def signatureText (i : Interface) : Except ShapeFault String := i.signatureValue.stableText

def signatureHash (i : Interface) : Except ShapeFault String :=
  i.signatureText.map (Hash.ofText Hash.contractPrefix)

end Interface

def semanticValue (c : Composition) (i : Interface) : Json := .record [
  ("schemaVersion", .str fingerprintVersion),
  ("structure", c.structureValue),
  ("signature", i.signatureValue)]

def semanticText (c : Composition) (i : Interface) : Except ShapeFault String :=
  (semanticValue c i).stableText

def semanticHash (c : Composition) (i : Interface) : Except ShapeFault String :=
  (semanticText c i).map (Hash.ofText Hash.contractPrefix)

/-- What derives the two hashes that similar components share. -/
structure Hasher where
  structureHash : Composition → Except ShapeFault Json
  signatureHash : Interface → Except ShapeFault Json

def Hasher.standard : Hasher where
  structureHash c := c.structureHash.map .str
  signatureHash i := i.signatureHash.map .str

/-- A hasher that gives the same hashes to everything. -/
def Hasher.constant (structureHash signatureHash : Json) : Hasher :=
  ⟨fun _ => .ok structureHash, fun _ => .ok signatureHash⟩

end ContractGraph
