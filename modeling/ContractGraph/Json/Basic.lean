import ContractGraph.Number.Binary64

/-!
# JSON values

A value keeps the order of its object members. Whole numbers have any size and are apart from
binary64 numbers. A member key is a string in every document that is read from text; an object
that was put together from pairs may have other scalars as keys, and keys are compared as values,
so that `1`, `1.0` and `true` are one key.

`Json.IsDocument` singles out the values that reading a text can give: string keys, each once.
-/

namespace ContractGraph

set_option autoImplicit false

inductive Key where
  | null
  | bool (value : Bool)
  | int (value : Int)
  | float (value : Binary64)
  | str (value : String)
  deriving DecidableEq

namespace Key

/-- The place of a numeric key on the extended line; truth values count as one and zero. -/
def point? : Key → Option LinePoint
  | .bool b => some (.ofInt (if b then 1 else 0))
  | .int i => some (.ofInt i)
  | .float f => LinePoint.ofBinary64? f
  | _ => none

/-- Equality as values. Not a number is the same key as itself. -/
def same : Key → Key → Bool
  | .null, .null => true
  | .str a, .str b => a == b
  | .float .nan, .float .nan => true
  | a, b =>
    match a.point?, b.point? with
    | some p, some q => p.order q == .eq
    | _, _ => false

instance : BEq Key := ⟨same⟩

/-- How many digits a key has that is a whole number; any other key has none. -/
def digits : Key → Nat
  | .int i => Binary64.decimalLength i.natAbs
  | _ => 0

@[simp] theorem str_beq_str (a b : String) : (Key.str a == Key.str b) = (a == b) := rfl

theorem same_str_iff (k : Key) (a : String) : (k == Key.str a) = true ↔ k = Key.str a := by
  cases k <;> simp [BEq.beq, same, point?]

end Key

inductive Json where
  | null
  | bool (value : Bool)
  | int (value : Int)
  | float (value : Binary64)
  | str (value : String)
  | arr (items : List Json)
  | obj (fields : List (Key × Json))

/-- Members of an object in order. -/
abbrev Fields := List (Key × Json)

namespace Json

mutual

/-- Whether two values are written alike, member order and number kind included. -/
def identical : Json → Json → Bool
  | .null, .null => true
  | .bool a, .bool b => a == b
  | .int a, .int b => a == b
  | .float a, .float b => decide (a = b)
  | .str a, .str b => a == b
  | .arr a, .arr b => identicalItems a b
  | .obj a, .obj b => identicalFields a b
  | _, _ => false

def identicalItems : List Json → List Json → Bool
  | [], [] => true
  | a :: as, b :: bs => identical a b && identicalItems as bs
  | _, _ => false

def identicalFields : List (Key × Json) → List (Key × Json) → Bool
  | [], [] => true
  | (k, a) :: as, (l, b) :: bs => decide (k = l) && identical a b && identicalFields as bs
  | _, _ => false

end

mutual

theorem identical_iff : (a b : Json) → (identical a b = true ↔ a = b)
  | .null, b => by cases b <;> simp [identical]
  | .bool _, b => by cases b <;> simp [identical]
  | .int _, b => by cases b <;> simp [identical]
  | .float _, b => by cases b <;> simp [identical]
  | .str _, b => by cases b <;> simp [identical]
  | .arr as, b => by cases b <;> simp [identical, identical_items_iff as]
  | .obj as, b => by cases b <;> simp [identical, identical_fields_iff as]

theorem identical_items_iff : (as bs : List Json) → (identicalItems as bs = true ↔ as = bs)
  | [], bs => by cases bs <;> simp [identicalItems]
  | a :: as, bs => by
    cases bs <;> simp [identicalItems, identical_iff a, identical_items_iff as]

theorem identical_fields_iff :
    (as bs : List (Key × Json)) → (identicalFields as bs = true ↔ as = bs)
  | [], bs => by cases bs <;> simp [identicalFields]
  | (k, a) :: as, bs => by
    rcases bs with _ | ⟨⟨l, b⟩, bs⟩ <;>
      simp [identicalFields, identical_iff a, identical_fields_iff as, Prod.ext_iff]

end

instance : DecidableEq Json := fun a b => decidable_of_iff _ (identical_iff a b)

/-- The kinds of values that a failure message names. -/
inductive Shape where
  | null
  | bool
  | int
  | float
  | str
  | arr
  | obj
  deriving DecidableEq

def shape : Json → Shape
  | .null => .null
  | .bool _ => .bool
  | .int _ => .int
  | .float _ => .float
  | .str _ => .str
  | .arr _ => .arr
  | .obj _ => .obj

/-- Null, false, zero and everything empty are not truthy. -/
def truthy : Json → Bool
  | .null => false
  | .bool b => b
  | .int i => i != 0
  | .float f => !f.isZero
  | .str s => s != ""
  | .arr items => !items.isEmpty
  | .obj fields => !fields.isEmpty

/-- A value, or another one in place of a value that is not truthy. -/
def orElse (v default : Json) : Json := if v.truthy then v else default

def ofKey : Key → Json
  | .null => .null
  | .bool b => .bool b
  | .int i => .int i
  | .float f => .float f
  | .str s => .str s

/-- Scalars can be keys; arrays and objects cannot. -/
def toKey? : Json → Option Key
  | .null => some .null
  | .bool b => some (.bool b)
  | .int i => some (.int i)
  | .float f => some (.float f)
  | .str s => some (.str s)
  | .arr _ => none
  | .obj _ => none

@[simp] theorem to_key_of_key (k : Key) : toKey? (ofKey k) = some k := by cases k <;> rfl

/-- An object whose keys are the given strings. -/
def record (fields : List (String × Json)) : Json :=
  .obj (fields.map fun f => (.str f.1, f.2))

def strings (ss : List String) : Json := .arr (ss.map .str)

def string? : Json → Option String
  | .str s => some s
  | _ => none

end Json

namespace Fields

/-- The value under a string key. -/
def get? (fields : Fields) (name : String) : Option Json := List.lookup (Key.str name) fields

/-- The value under a string key, null when there is none. -/
def getD (fields : Fields) (name : String) : Json := (fields.get? name).getD .null

/-- A key keeps the place and the spelling of its first insertion and the value of its last. -/
def insert (key : Key) (value : Json) : Fields → Fields
  | [] => [(key, value)]
  | (k, v) :: rest => if k == key then (k, value) :: rest else (k, v) :: insert key value rest

def keys (fields : Fields) : List Key := fields.map (·.1)

/-- Members in order of insertion. -/
def ofPairs (pairs : List (Key × Json)) : Fields :=
  pairs.foldl (fun fields p => fields.insert p.1 p.2) []

end Fields

namespace Json

mutual

/-- String keys everywhere, and no key twice in an object. -/
def isDocument : Json → Bool
  | .arr items => areDocuments items
  | .obj fields => fieldsAreDocuments fields
  | _ => true

def areDocuments : List Json → Bool
  | [] => true
  | v :: rest => isDocument v && areDocuments rest

def fieldsAreDocuments : List (Key × Json) → Bool
  | [] => true
  | (.str name, v) :: rest =>
    !(rest.any fun f => f.1 == Key.str name) && isDocument v && fieldsAreDocuments rest
  | _ :: _ => false

end

/-- What reading a text can give. -/
def IsDocument (v : Json) : Prop := v.isDocument = true

instance (v : Json) : Decidable v.IsDocument := inferInstanceAs (Decidable (_ = true))

mutual

/-- How many levels of arrays and objects a value has. -/
def nesting : Json → Nat
  | .arr items => itemsNesting items + 1
  | .obj fields => fieldsNesting fields + 1
  | _ => 0

def itemsNesting : List Json → Nat
  | [] => 0
  | v :: rest => max (nesting v) (itemsNesting rest)

def fieldsNesting : List (Key × Json) → Nat
  | [] => 0
  | (_, v) :: rest => max (nesting v) (fieldsNesting rest)

end

mutual

/-- How many digits the longest whole number in a value has, keys included. A sign does not count. -/
def digits : Json → Nat
  | .int i => Binary64.decimalLength i.natAbs
  | .arr items => itemsDigits items
  | .obj fields => fieldsDigits fields
  | _ => 0

def itemsDigits : List Json → Nat
  | [] => 0
  | v :: rest => max (digits v) (itemsDigits rest)

def fieldsDigits : List (Key × Json) → Nat
  | [] => 0
  | (k, v) :: rest => max (max k.digits (digits v)) (fieldsDigits rest)

end

end Json

end ContractGraph
