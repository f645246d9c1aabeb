/-!
# Sets of code points

A Unicode property is stored as its ranges in ascending order, both ends included.
-/

namespace ContractGraph.Text

set_option autoImplicit false

/-- Whether a code point lies in one of the ranges. -/
def inRanges (ranges : List (Nat × Nat)) (n : Nat) : Bool :=
  ranges.any fun r => decide (r.1 ≤ n) && decide (n ≤ r.2)

end ContractGraph.Text
