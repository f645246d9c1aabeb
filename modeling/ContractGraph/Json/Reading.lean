import ContractGraph.Json.Display
import ContractGraph.Json.Reader
import ContractGraph.Json.Stable

/-!
# Lenient readings of values

A document may hold any value anywhere. Each reading of a value that expects a certain shape is
defined once here, with the fault it meets on another shape:

* the members of a value exist on objects only;
* a text is a string, and where nothing may stand for the empty text every value that is not truthy
  is nothing;
* going through the elements of a value gives the items of an array, the keys of an object and the
  characters of a string;
* a required member needs an object that has it;
* a record can be put together from an object or from any sequence of pairs.
-/

namespace ContractGraph

set_option autoImplicit false

def Json.Shape.name : Json.Shape → String
  | .null => "NoneType"
  | .bool => "bool"
  | .int => "int"
  | .float => "float"
  | .str => "str"
  | .arr => "list"
  | .obj => "dict"

/-- A value did not have the shape that a reading needs. -/
inductive ShapeFault where
  | noAttribute (shape : Json.Shape) (name : String)
  | notIterable (shape : Json.Shape)
  | notSubscriptable (shape : Json.Shape)
  | namedItem (shape : Json.Shape)
  | missingMember (name : String)
  | notHashable (shape : Json.Shape)
  | notPair (index length : Nat)
  | notSequence (index : Nat)
  | notOrdered
  | notContract (shape : Json.Shape)
  | notText (shape : Json.Shape)
  | missingEntryId
  | tooDeep
  | tooManyDigits
  deriving DecidableEq

namespace ShapeFault

def message : ShapeFault → String
  | .noAttribute shape name => s!"'{shape.name}' object has no attribute '{name}'"
  | .notIterable shape => s!"'{shape.name}' object is not iterable"
  | .notSubscriptable shape => s!"'{shape.name}' object is not subscriptable"
  | .namedItem .arr => "list indices must be integers or slices, not str"
  | .namedItem _ => "string indices must be integers, not 'str'"
  | .missingMember name => Text.quoted name
  | .notHashable shape => s!"unhashable type: '{shape.name}'"
  | .notPair index length =>
    s!"dictionary update sequence element #{index} has length {length}; 2 is required"
  | .notSequence index =>
    s!"cannot convert dictionary update sequence element #{index} to a sequence"
  | .notOrdered => "values of these types have no order"
  | .notContract shape => s!"contract must be a JSON object, got {shape.name}"
  | .notText shape => s!"expected a text, got {shape.name}"
  | .missingEntryId => "contract is missing 'entryId'"
  | .tooDeep => s!"nested deeper than {Json.maxStableNesting} levels"
  | .tooManyDigits => Json.Excess.writtenDigits.message

end ShapeFault

namespace Json

/-- The members of an object, asked for under the given name of the reading. -/
def fieldsFor (reading : String) : Json → Except ShapeFault Fields
  | .obj fields => .ok fields
  | v => .error (.noAttribute v.shape reading)

/-- A text; nothing else will do. -/
def asText : Json → Except ShapeFault String
  | .str s => .ok s
  | v => .error (.notText v.shape)

/-- A text, asked for under the given name of the reading; a value that is not truthy stands for
the empty one. -/
def textFor (reading : String) : Json → Except ShapeFault String
  | .str s => .ok s
  | v => if v.truthy then .error (.noAttribute v.shape reading) else .ok ""

/-- A member of an object, null when it has none of that name. -/
def member (v : Json) (name : String) : Except ShapeFault Json :=
  (v.fieldsFor "get").map (·.getD name)

/-- A member under its newer name, or else under its older one. -/
def renamedMember (v : Json) (newer older : String) : Except ShapeFault Json :=
  (v.fieldsFor "get").map fun fields => (fields.get? newer).getD (fields.getD older)

/-- The elements that going through a value meets. -/
def elements : Json → Except ShapeFault (List Json)
  | .arr items => .ok items
  | .obj fields => .ok (fields.map fun f => ofKey f.1)
  | .str s => .ok (s.toList.map fun c => .str (String.singleton c))
  | v => .error (.notIterable v.shape)

/-- The elements of a value, none for one that is not truthy. -/
def elementsOrNone (v : Json) : Except ShapeFault (List Json) :=
  if v.truthy then v.elements else .ok []

/-- A member that has to be there. -/
def requiredMember (v : Json) (name : String) : Except ShapeFault Json :=
  match v with
  | .obj fields =>
    match Fields.get? fields name with
    | some w => .ok w
    | none => .error (.missingMember name)
  | .arr _ => .error (.namedItem .arr)
  | .str _ => .error (.namedItem .str)
  | v => .error (.notSubscriptable v.shape)

/-- A value as a key of a mapping. -/
def asKey (v : Json) : Except ShapeFault Key :=
  match v.toKey? with
  | some k => .ok k
  | none => .error (.notHashable v.shape)

/-- Whether some value of the list equals the given one. Membership asks for a value that can be a
key. -/
def amongKeys (v : Json) (seen : List Json) : Except ShapeFault Bool :=
  match v.toKey? with
  | some _ => .ok (seen.any fun w => w.same v)
  | none => .error (.notHashable v.shape)

/-- The text of a value that was put in order, if no whole number in it is too long to be written. -/
def stableText (v : Json) : Except ShapeFault String :=
  match v.stableFault? maxStableNesting with
  | some .notOrdered => .error .notOrdered
  | some .tooDeep => .error .tooDeep
  | none =>
    if v.stabilize.digits ≤ maxDigits then .ok v.stabilize.dense else .error .tooManyDigits

/-- Adds the pairs of a sequence to a record, the first of them having the given index. -/
def addPairs (index : Nat) (fields : Fields) : List Json → Except ShapeFault Fields
  | [] => .ok fields
  | v :: rest =>
    match v.elements with
    | .error _ => .error (.notSequence index)
    | .ok [k, w] =>
      match k.toKey? with
      | none => .error (.notHashable k.shape)
      | some key => addPairs (index + 1) (fields.insert key w) rest
    | .ok other => .error (.notPair index other.length)

/-- The record that a value stands for; a value that is not truthy stands for the empty one. -/
def toRecord (v : Json) : Except ShapeFault Fields :=
  match v.orElse (.obj []) with
  | .obj fields => .ok fields
  | v => do
    let pairs ← v.elements
    addPairs 0 [] pairs

end Json

end ContractGraph
