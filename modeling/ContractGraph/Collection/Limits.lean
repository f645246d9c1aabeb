import ContractGraph.Fault

/-!
# Limits of a collection

A collection goes down a number of levels that is not negative and visits at least one component.
Limits that say otherwise are refused, the depth before the number of components; so limits that
are there can be kept.
-/

namespace ContractGraph

set_option autoImplicit false

structure Limits where
  depth : Bound
  nodes : Bound
  depth_not_negative : depth.isBelow 0 = false
  nodes_positive : nodes.isBelow 1 = false

/-- A value where a bound should stand: only numbers can be compared with a count. -/
def Bound.ofValue (v : Json) : Except ShapeFault Bound :=
  match Bound.ofValue? v with
  | some b => .ok b
  | none => .error .notOrdered

namespace Limits

def ofBounds (depth nodes : Bound) : Except Fault Limits :=
  if negative : depth.isBelow 0 = true then .error (.negativeDepth depth)
  else if empty : nodes.isBelow 1 = true then .error (.noRoom nodes)
  else .ok ⟨depth, nodes, by simpa using negative, by simpa using empty⟩

/-- Limits that are counts. -/
def counts (depth nodes : Nat) (room : 1 ≤ nodes) : Limits where
  depth := .whole depth
  nodes := .whole nodes
  depth_not_negative := by
    rw [Bound.whole_is_below]
    exact decide_eq_false (by omega)
  nodes_positive := by
    rw [Bound.whole_is_below]
    exact decide_eq_false (by omega)

/-- Limits that are given as values. The depth is judged before the other value is looked at. -/
def ofValues (depth nodes : Json) : Except Fault Limits := do
  let depth ← Bound.ofValue depth
  if depth.isBelow 0 then .error (.negativeDepth depth)
  else ofBounds depth (← Bound.ofValue nodes)

/-- How many levels below the entry are walked in a graph of the given size. No level lies deeper
than there are components. -/
def levels (l : Limits) (size : Nat) : Nat := (l.depth.floor?.map Int.toNat).getD size

/-- How many components are visited at most in a graph of the given size. -/
def room (l : Limits) (size : Nat) : Nat := (l.nodes.ceiling?.map Int.toNat).getD (size + 1)

theorem levels_of_whole {l : Limits} {d : Nat} (h : l.depth = .whole d) (size : Nat) :
    l.levels size = d := by
  simp [levels, h]

theorem room_of_whole {l : Limits} {n : Nat} (h : l.nodes = .whole n) (size : Nat) :
    l.room size = n := by
  simp [room, h]

end Limits

end ContractGraph
