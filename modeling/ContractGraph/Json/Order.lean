import ContractGraph.Json.Basic
import ContractGraph.RunSort.Sort

/-!
# Equality and order of JSON values

Values are compared as values: numbers of every kind by their exact value, truth values as one
and zero, arrays item by item, objects as mappings whatever their member order. Not a number
equals itself.

Only strings with strings, numbers with numbers and arrays with arrays can be compared; arrays are
compared by their first differing items, and a list of values can be sorted when every two of them
can be compared. What is not a number comes neither before nor after a number, so that a list that
holds it has no order of its own and is sorted by runs.
-/

namespace ContractGraph.Json

set_option autoImplicit false

mutual

def same : Json → Json → Bool
  | .arr as, .arr bs => sameItems as bs
  | .obj as, .obj bs => as.length == bs.length && fieldsWithin as bs
  | a, b =>
    match a.toKey?, b.toKey? with
    | some k, some l => k == l
    | _, _ => false

def sameItems : List Json → List Json → Bool
  | [], [] => true
  | a :: as, b :: bs => same a b && sameItems as bs
  | _, _ => false

/-- Whether every member of the first list has its like in the second. -/
def fieldsWithin : List (Key × Json) → List (Key × Json) → Bool
  | [], _ => true
  | (k, a) :: as, bs =>
    (match bs.lookup k with
      | some b => same a b
      | none => false) && fieldsWithin as bs

end

@[simp] theorem same_str (a b : String) : same (.str a) (.str b) = (a == b) := rfl

/-- Whether a value is a number or counts as one. -/
def isNumeric : Json → Bool
  | .bool _ => true
  | .int _ => true
  | .float _ => true
  | _ => false

/-- Whether a number is less than another one. -/
def numberBefore (a b : Json) : Bool :=
  match a.toKey?.bind Key.point?, b.toKey?.bind Key.point? with
  | some p, some q => p.order q == .lt
  | _, _ => false

mutual

/-- Whether a value comes before another one, if they can be compared. -/
def before? : Json → Json → Option Bool
  | .str a, .str b => some (decide (a < b))
  | .arr as, .arr bs => itemsBefore? as bs
  | a, b => if a.isNumeric && b.isNumeric then some (numberBefore a b) else none

def itemsBefore? : List Json → List Json → Option Bool
  | [], bs => some (!bs.isEmpty)
  | _ :: _, [] => some false
  | a :: as, b :: bs => if same a b then itemsBefore? as bs else before? a b

end

def isString : Json → Bool
  | .str _ => true
  | _ => false

/-- Whether every two of the values can be compared, asked pair by pair. -/
def pairsOrdered : List Json → Bool
  | [] => true
  | v :: rest => rest.all (fun w => (before? v w).isSome) && pairsOrdered rest

/-- Whether every two of the values can be compared. Strings and numbers need no asking. -/
def allOrdered (items : List Json) : Bool :=
  items.all isString || items.all isNumeric || pairsOrdered items

def before (a b : Json) : Bool := before? a b == some true

/-- Whether the second value does not come before the first. -/
def notAfter (a b : Json) : Bool := !before b a

mutual

/-- Whether a value that is not a number stands in a value of arrays. -/
def holdsNan : Json → Bool
  | .float f => f = .nan
  | .arr items => someHoldsNan items
  | _ => false

def someHoldsNan : List Json → Bool
  | [] => false
  | v :: rest => holdsNan v || someHoldsNan rest

end

/-- Items in ascending order of a key, when their keys can be compared; equal keys keep their
order. -/
def sortOn? {α : Type} (key : α → Json) (items : List α) : Option (List α) :=
  let keys := items.map key
  if someHoldsNan keys then RunSort.sort? (fun a b => before? (key a) (key b)) items
  else if allOrdered keys then some (items.mergeSort fun a b => notAfter (key a) (key b))
  else none

def sort? (items : List Json) : Option (List Json) := sortOn? id items

end ContractGraph.Json
