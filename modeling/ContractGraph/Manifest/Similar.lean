import ContractGraph.Manifest.Basic

/-!
# Similar components

Two components are similar when they share a structure hash or a signature hash. The stored index
answers when the manifest has one; otherwise one is made for the question.
-/

namespace ContractGraph

set_option autoImplicit false

structure SimilarKeys where
  structures : List Json
  signatures : List Json
  deriving DecidableEq

namespace Manifest

def indexOrNew (m : Manifest) : Except ShapeFault HashIndex :=
  match m.hashIndex with
  | some index => .ok index
  | none => HashIndex.ofComponents m.components

/-- The keys under a hash; a component without the hash asks for the empty one. -/
def keysUnder (t : Table Key (List Json)) (hash : Json) : Except ShapeFault (List Json) :=
  (hash.orElse (.str "")).asKey.map fun k => (t.get? k).getD []

/-- The other keys, sorted. -/
def othersSorted (key : String) (keys : List Json) : Except ShapeFault (List Json) :=
  match Json.sort? (keys.filter fun k => !k.same (.str key)) with
  | some sorted => .ok sorted
  | none => .error .notOrdered

/-- The other components that share a hash with the one under the key. -/
def similar (m : Manifest) (key : String) : Except ShapeFault SimilarKeys :=
  match m.components.get? key with
  | none => .ok ⟨[], []⟩
  | some c => do
    let index ← m.indexOrNew
    let structures ← keysUnder index.structures c.structureHash
    let signatures ← keysUnder index.signatures c.signatureHash
    return ⟨← othersSorted key structures, ← othersSorted key signatures⟩

/-- The components that are similar to the one under a value. No component stands under a value
that is no text, but the value has to be able to be a key. -/
def similarGiven (m : Manifest) (key : Json) : Except ShapeFault SimilarKeys :=
  match key with
  | .str key => m.similar key
  | v => v.asKey.map fun _ => ⟨[], []⟩

end Manifest

end ContractGraph
