/-!
# Searching sorted items

Sorted items that are asked whether they stay before some place answer yes up to the place and no
from it on, so that few of them have to be asked: a stretch is halved until it is empty, and a
stretch near one side is found by leaps that double. For items that are not sorted the answer
depends on which of them are asked, and the definitions here fix that.

A question may have no answer; then the search has no result.
-/

namespace ContractGraph.RunSort

set_option autoImplicit false

variable {α : Type}

/-- The side on which items are listed first. -/
inductive Side where
  | front
  | back

/-- The middle of a stretch of places. Of two middles it is the one closer to the back. -/
def Side.middle (side : Side) (low high : Nat) : Nat :=
  match side with
  | .front => low + (high - low) / 2
  | .back => high - 1 - (high - low) / 2

theorem Side.middle_bounds (side : Side) {low high : Nat} (h : low < high) :
    low ≤ side.middle low high ∧ side.middle low high < high := by
  cases side <;> simp only [Side.middle] <;> omega

/-- The place between two places before which the items stay. -/
def bisect (side : Side) (stays : α → Option Bool) (items : List α) (low high : Nat) :
    Option Nat :=
  if h : low < high then do
    let middle := side.middle low high
    if ← stays (← items[middle]?) then bisect side stays items (middle + 1) high
    else bisect side stays items low middle
  else some low
  termination_by high - low
  decreasing_by all_goals have := side.middle_bounds h; omega

/-- Leaps from an item that stays to ever later ones. The last item known to stay, and a place
before which all that stay are. -/
def leap (stays : α → Option Bool) (items : List α) (last probe : Nat) : Option (Nat × Nat) :=
  if probe < items.length then do
    if ← stays (← items[probe]?) then leap stays items probe (2 * probe + 1)
    else return (last, probe)
  else some (last, items.length)
  termination_by items.length - probe

/-- How many items stay, asking those near the listed side first. -/
def gallop (side : Side) (stays : α → Option Bool) : List α → Option Nat
  | [] => some 0
  | x :: rest => do
    if ← stays x then
      let (last, bound) ← leap stays (x :: rest) 0 1
      bisect side stays (x :: rest) (last + 1) bound
    else return 0

example : gallop .front (fun n => some (decide (n < 5))) [1, 2, 3, 4, 5, 6, 7] = some 4 := by
  decide +kernel

end ContractGraph.RunSort
