import ContractGraph.Json.Basic
import ContractGraph.Number.Shortest
import ContractGraph.Text.Quoted

/-!
# Display text of JSON values

How a value is shown inside a message or turned into a name: a string stands for itself, every
other value is written out, strings inside it in quotes and whole numbers of any length.
-/

namespace ContractGraph

set_option autoImplicit false

def Key.display : Key → String
  | .null => "None"
  | .bool b => if b then "True" else "False"
  | .int i => toString i
  | .float f => Binary64.displayLayout.text f
  | .str s => Text.quoted s

namespace Json

mutual

/-- The value written out. -/
def display : Json → String
  | .arr items => "[" ++ displayItems items ++ "]"
  | .obj fields => "\x7b" ++ displayFields fields ++ "\x7d"
  | .null => Key.display .null
  | .bool b => Key.display (.bool b)
  | .int i => Key.display (.int i)
  | .float f => Key.display (.float f)
  | .str s => Key.display (.str s)

def displayItems : List Json → String
  | [] => ""
  | [v] => display v
  | v :: rest => display v ++ ", " ++ displayItems rest

def displayFields : List (Key × Json) → String
  | [] => ""
  | [(k, v)] => k.display ++ ": " ++ display v
  | (k, v) :: rest => k.display ++ ": " ++ display v ++ ", " ++ displayFields rest

end

/-- A string as it is, any other value written out. -/
def text : Json → String
  | .str s => s
  | v => v.display

@[simp] theorem text_str (s : String) : (Json.str s).text = s := rfl

example : (Json.arr [.str "a", .int 1, .null, .bool true]).text = "['a', 1, None, True]" := by
  decide +kernel

end Json

end ContractGraph
