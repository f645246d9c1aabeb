import ContractGraph.Manifest.Basic

/-!
# Statistics of a manifest

The components with the most incoming edges and those with the most dependencies, each in
descending order with ties in the order of the components, and the components with neither.
-/

namespace ContractGraph

set_option autoImplicit false

structure ManifestStats where
  mostUsed : List (String × Nat)
  mostComplex : List (String × Nat)
  isolated : List String
  deriving DecidableEq

/-- The items up to an end that, when negative, counts from the end of the list. -/
def takeUpTo {α : Type} (limit : Int) (items : List α) : List α :=
  if limit < 0 then items.take ((items.length : Int) + limit).toNat else items.take limit.toNat

namespace Manifest

/-- Keys with a count each, the greatest counts first. -/
def ranked (m : Manifest) (count : Component → Nat) : List (String × Nat) :=
  (m.components.entries.map fun e => (e.1, count e.2)).mergeSort fun a b => decide (b.2 ≤ a.2)

def stats (m : Manifest) (limit : Int) : ManifestStats where
  mostUsed := takeUpTo limit (m.ranked (·.usedBy.length))
  mostComplex := takeUpTo limit (m.ranked (·.dependencies.length))
  isolated := (m.components.filter fun _ c => c.usedBy.isEmpty && c.dependencies.isEmpty).keys

end Manifest

end ContractGraph
