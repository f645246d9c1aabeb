import ContractGraph.Json.Order
import ContractGraph.Json.Printer

/-!
# Stable text

Values that differ only in the order in which they were extracted have one text: the members of an
object are sorted by key and those with the value null are left out, and an array of strings is
sorted. Any other array keeps its order.

Keys of one object that cannot be compared have no order; string keys always can be. A value that is
nested too deep is not put in order either, and what was put in order has no text when a whole number
in it has too many digits.
-/

namespace ContractGraph.Json

set_option autoImplicit false

def isNull : Json → Bool
  | .null => true
  | _ => false

/-- Members in the order of their keys; keys that cannot be compared stay as they are. -/
def sortMembers (fields : Fields) : Fields := (sortOn? (fun f => ofKey f.1) fields).getD fields

def sortStrings (items : List Json) : List Json :=
  if items.all isString then items.mergeSort notAfter else items

mutual

def stabilize : Json → Json
  | .arr items => .arr (sortStrings (stabilizeItems items))
  | .obj fields => .obj ((sortMembers (stabilizeFields fields)).filter fun f => !isNull f.2)
  | v => v

def stabilizeItems : List Json → List Json
  | [] => []
  | v :: rest => stabilize v :: stabilizeItems rest

def stabilizeFields : List (Key × Json) → List (Key × Json)
  | [] => []
  | (k, v) :: rest => (k, stabilize v) :: stabilizeFields rest

end

/-- Why a value cannot be put in order. -/
inductive StableFault where
  | notOrdered
  | tooDeep
  deriving DecidableEq

mutual

/-- The fault that is met first when a value of at most so many levels is put in order. The keys of
an object are sorted before its members are looked at, and these follow in the order of the keys. -/
def stableFault? (levels : Nat) : Json → Option StableFault
  | .arr items =>
    match levels with
    | 0 => some .tooDeep
    | levels + 1 => itemsFault? levels items
  | .obj fields =>
    match levels with
    | 0 => some .tooDeep
    | levels + 1 =>
      match sortOn? (fun f => ofKey f.1) (memberFaults levels fields) with
      | none => some .notOrdered
      | some members => members.findSome? (·.2)
  | _ => none

def itemsFault? (levels : Nat) : List Json → Option StableFault
  | [] => none
  | v :: rest =>
    match stableFault? levels v with
    | some fault => some fault
    | none => itemsFault? levels rest

def memberFaults (levels : Nat) : List (Key × Json) → List (Key × Option StableFault)
  | [] => []
  | (k, v) :: rest => (k, stableFault? levels v) :: memberFaults levels rest

end

/-- How many levels can be put in order. -/
def maxStableNesting : Nat := 492

example : stableFault? 2 (.arr [.obj [(.str "b", .arr []), (.str "a", .obj [(.int 1, .null),
    (.str "c", .null)])]]) = some .tooDeep := by cbv
example : stableFault? 3 (.arr [.obj [(.str "b", .arr [.arr []]), (.str "a", .obj [(.int 1, .null),
    (.str "c", .null)])]]) = some .notOrdered := by cbv

end ContractGraph.Json
