import ContractGraph.Contract.Basic
import ContractGraph.Json.Order

/-!
# The schema of bundle documents

The parts of a bundle that are checked by shape: the graph and the meta object. Texts are strings
only, lists are arrays only, and an edge is an array of exactly two strings. A member with two
names counts under the first of them whenever it is there, also when it is null or invalid there.
Optional members may be null, and members that the schema does not know are ignored. Where such
members are kept, in a node, a contract and the meta object, every key has to be a string.
-/

namespace ContractGraph.Bundle

set_option autoImplicit false

/-- What the checks look at in an embedded contract. -/
structure ContractHead where
  type : Option String
  schemaVersion : Option String
  entryId : Option String
  semanticHash : Option String
  fileHash : Option String
  deriving DecidableEq

structure GraphNode where
  entryId : String
  contract : Option ContractHead
  deriving DecidableEq

structure Graph where
  nodes : List GraphNode
  edges : List (String × String)
  deriving DecidableEq

/-- The member under the first of two names, or else under the second. -/
def eitherMember (fields : Fields) (first second : String) : Json :=
  (fields.get? first).getD (fields.getD second)

/-- A string or null. -/
def optionalText? : Json → Option (Option String)
  | .null => some none
  | .str s => some (some s)
  | _ => none

def ContractHead.ofFields? (fields : Fields) : Option ContractHead := do
  let type ← optionalText? (fields.getD "type")
  let schemaVersion ← optionalText? (eitherMember fields "schemaVersion" "schema_version")
  let entryId ← optionalText? (eitherMember fields "entryId" "entry_id")
  let semanticHash ← optionalText? (eitherMember fields "semanticHash" "semantic_hash")
  let fileHash ← optionalText? (eitherMember fields "fileHash" "file_hash")
  return { type, schemaVersion, entryId, semanticHash, fileHash }

/-- Members that are all under string keys. -/
def named? (fields : Fields) : Option Fields :=
  if fields.all fun f => (Json.ofKey f.1).isString then some fields else none

def optionalHead? : Json → Option (Option ContractHead)
  | .null => some none
  | .obj fields => ((named? fields).bind ContractHead.ofFields?).map some
  | _ => none

def GraphNode.ofValue? : Json → Option GraphNode
  | .obj fields => do
    let fields ← named? fields
    let entryId ← Json.string? (eitherMember fields "entryId" "entry_id")
    let contract ← optionalHead? (Fields.getD fields "contract")
    return { entryId, contract }
  | _ => none

def edge? : Json → Option (String × String)
  | .arr [.str a, .str b] => some (a, b)
  | _ => none

def listOf? {α : Type} (item? : Json → Option α) : Json → Option (List α)
  | .arr items => items.mapM item?
  | _ => none

def Graph.ofValue? : Json → Option Graph
  | .obj fields => do
    let nodes ← listOf? GraphNode.ofValue? (Fields.getD fields "nodes")
    let edges ← listOf? edge? (Fields.getD fields "edges")
    return { nodes, edges }
  | _ => none

def isMissingEntry : Json → Bool
  | .obj fields =>
    (Json.string? (Fields.getD fields "name")).isSome && (Json.string? (Fields.getD fields "reason")).isSome &&
      (optionalText? (eitherMember fields "referencedBy" "referenced_by")).isSome &&
      (optionalText? (eitherMember fields "packageName" "package_name")).isSome &&
      (optionalText? (eitherMember fields "packageVersion" "package_version")).isSome
  | _ => false

def truthWords : List String :=
  ["0", "off", "f", "false", "n", "no", "1", "on", "t", "true", "y", "yes"]

/-- A truth value, a number equal to zero or one, or a word for a truth value in any case of
ASCII. -/
def isLaxBool (v : Json) : Bool :=
  match v with
  | .str s => truthWords.contains (String.ofList (s.toList.map Char.toLower))
  | v => v.same (.int 0) || v.same (.int 1)

def isMeta : Json → Bool
  | .obj fields =>
    (named? fields).isSome &&
    (match Fields.getD fields "missing" with
      | .arr items => items.all isMissingEntry
      | _ => false) &&
      (optionalText? (Fields.getD fields "source")).isSome &&
      ((Fields.get? fields "truncated").all isLaxBool)
  | _ => false

end ContractGraph.Bundle
