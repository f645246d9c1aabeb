import ContractGraph.EntryId
import ContractGraph.Json.Reading
import ContractGraph.Table

/-!
# Resolving names

A name that one component uses for another is resolved to the key of a component in four tiers, of
which the first that has a candidate decides:

1. relative: a file beside the referring component, with an extension or as the index of a folder;
2. exact: the component with the same normal form, by its key or else by its own entry id;
3. suffix: keys that end in the name with an extension after a slash;
4. basename: keys whose last segment without its extension is the name without its extension.

The candidates of the last two tiers stand in the order of the components and the first of them is
chosen. A resolver indexes the keys once; looking a name up only reads the indices.
-/

namespace ContractGraph

set_option autoImplicit false

inductive Tier where
  | relative
  | exact
  | suffix
  | basename
  deriving DecidableEq

def Tier.word : Tier → String
  | .relative => "relative"
  | .exact => "exact"
  | .suffix => "suffix"
  | .basename => "basename"

structure Match where
  key : String
  tier : Tier
  candidates : List String
  deriving DecidableEq

def Match.ambiguous (m : Match) : Bool := 1 < m.candidates.length

/-- The match whose key is the first of the candidates, if there is one. -/
def Match.ofCandidates (tier : Tier) : List String → Option Match
  | [] => none
  | key :: rest => some ⟨key, tier, key :: rest⟩

structure Resolver where
  keys : List String
  byId : Table String String
  byFileName : Table String (List String)
  byStem : Table String (List String)

namespace Resolver

def siblingSuffixes : List String := [".tsx", ".ts", "/index.tsx", "/index.ts"]

def nameExtensions : List String := [".tsx", ".ts"]

def hasSlash (s : String) : Bool := s.toList.contains '/'

/-- What stands after the last slash. -/
def fileName (key : String) : String :=
  String.ofList (key.toList.reverse.takeWhile (· != '/')).reverse

/-- Keys and, after all of them, the entry ids of the components lead to a key by normal form; the
first to claim a normal form keeps it. -/
def indexIds (ids : List (String × Option String)) : Table String String :=
  let byKey := ids.foldl (fun t e => t.insertNew (EntryId.normalize e.1) e.1) .empty
  ids.foldl (fun t e =>
    match e.2 with
    | some id => t.insertNew (EntryId.normalize id) e.1
    | none => t) byKey

def indexFileNames (keys : List String) : Table String (List String) :=
  (keys.filter hasSlash).foldl (fun t key => t.append (fileName key) key) .empty

def indexStems (keys : List String) : Table String (List String) :=
  keys.foldl (fun t key => t.append (EntryId.stem key) key) .empty

/-- The resolver of components that are given by their keys and entry ids. -/
def ofIds (ids : List (String × Option String)) : Resolver :=
  let keys := ids.map (·.1)
  ⟨keys, indexIds ids, indexFileNames keys, indexStems keys⟩

/-- The key of the component with the same normal form. -/
def lookup (r : Resolver) (id : String) : Option String :=
  if id = "" then none else r.byId.get? (EntryId.normalize id)

/-- The paths beside the referring component that a name may mean. -/
def siblingPaths (name referrer : String) : List String :=
  let directory := EntryId.directory (EntryId.normalize referrer)
  let start := if directory = "" then name else directory ++ "/" ++ name
  siblingSuffixes.map (start ++ ·)

def findRelative (r : Resolver) (name referrer : String) : Option Match :=
  (siblingPaths name referrer).findSome? fun path =>
    (r.lookup path).map fun key => ⟨key, .relative, [key]⟩

def findExact (r : Resolver) (name : String) : Option Match :=
  (r.lookup name).map fun key => ⟨key, .exact, [key]⟩

/-- Keys that end in a file name after a slash. -/
def withSuffix (r : Resolver) (target : String) : List String :=
  if hasSlash target then r.keys.filter fun key => ('/' :: target.toList).isSuffixOf key.toList
  else (r.byFileName.get? target).getD []

def findSuffix (r : Resolver) (name : String) : Option Match :=
  nameExtensions.findSome? fun extension => Match.ofCandidates .suffix (r.withSuffix (name ++ extension))

def findBasename (r : Resolver) (name : String) : Option Match :=
  Match.ofCandidates .basename ((r.byStem.get? (EntryId.dropExtension name)).getD [])

/-- What a name means without regard to where it is used. -/
def findAnywhere (r : Resolver) (name : String) : Option Match :=
  (r.findExact name).or ((r.findSuffix name).or (r.findBasename name))

/-- What a name means, used by the given component or by none. -/
def find? (r : Resolver) (name : String) (referrer : Option String) : Option Match :=
  if name = "" then none
  else (referrer.bind (r.findRelative name)).or (r.findAnywhere name)

/-- The key that a name means. -/
def resolve (r : Resolver) (name : String) (referrer : Option String) : Option String :=
  (r.find? name referrer).map (·.key)

/-- What a value means where a name should stand. Nothing is meant by a value that is not truthy;
any other is tried by its text beside the referring component only. -/
def findValue (r : Resolver) (name : Json) (referrer : String) :
    Except ShapeFault (Option Match) :=
  match name with
  | .str s => .ok (r.find? s (some referrer))
  | v =>
    if v.truthy then
      match r.findRelative v.text referrer with
      | some m => .ok (some m)
      | none => .error (.noAttribute v.shape "replace")
    else .ok none

/-- What a value means where a name should stand, used by the given value or, if that is null, by
none. -/
def findGiven (r : Resolver) (name referrer : Json) : Except ShapeFault (Option Match) :=
  match referrer with
  | .str referrer => r.findValue name referrer
  | .null => (name.textFor "replace").map fun name => r.find? name none
  | v =>
    if name.truthy then .error (.noAttribute v.shape (if v.truthy then "replace" else "rfind"))
    else .ok none

/-- The key of the component that a value names as its id. -/
def lookupGiven (r : Resolver) (id : Json) : Except ShapeFault (Option String) :=
  (id.textFor "replace").map r.lookup

end Resolver

end ContractGraph
