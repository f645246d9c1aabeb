import ContractGraph.Text.Digit
import ContractGraph.Text.LowerCase

/-!
# Settings

The defaults for collecting and packing, each of which an environment variable can replace. A
number that is blank or cannot be read leaves its default in place.
-/

namespace ContractGraph

set_option autoImplicit false

structure Settings where
  depth : Int := 1
  maxNodes : Int := 100
  projectRoot : String := "."
  includeHashIndex : Bool := false
  deriving DecidableEq

namespace Settings

def truthWords : List String := ["1", "true", "yes", "on"]

/-- The number that a variable holds, or the default. -/
def numberOr (default : Int) (value : Option String) : Int :=
  (value.bind Text.readInt).getD default

def ofEnvironment (environment : List (String × String)) : Settings where
  depth := numberOr 1 (environment.lookup "STAMPGRAPH_DEPTH")
  maxNodes := numberOr 100 (environment.lookup "STAMPGRAPH_MAX_NODES")
  projectRoot := ((environment.lookup "STAMPGRAPH_PROJECT_ROOT").filter (· != "")).getD "."
  includeHashIndex :=
    truthWords.contains (Text.lower ((environment.lookup "STAMPGRAPH_HASH_INDEX").getD ""))

example : ofEnvironment [] = {} := by decide +kernel

end Settings

end ContractGraph
