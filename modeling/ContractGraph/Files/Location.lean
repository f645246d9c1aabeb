import ContractGraph.EntryId

/-!
# Locations

A location is a path text taken apart: its leading slashes and its parts, without empty parts and
without single dots. A double dot stays a part, because what it leads to depends on the files.
-/

namespace ContractGraph

set_option autoImplicit false

structure Location where
  slashes : Nat
  parts : List String
  deriving DecidableEq

namespace Location

def ofText (path : String) : Location where
  slashes := EntryId.rootSlashes path.toList
  parts := ((Text.splitAt '/' path.toList).map String.ofList).filter fun p => p != "" && p != "."

def text (l : Location) : String :=
  if l.slashes = 0 ∧ l.parts = [] then "."
  else String.ofList (List.replicate l.slashes '/' ++ Text.join '/' (l.parts.map String.toList))

/-- A location seen from another one; one that starts at the root stands for itself. -/
def join (base l : Location) : Location :=
  if l.slashes = 0 then ⟨base.slashes, base.parts ++ l.parts⟩ else l

def child (base : Location) (name : String) : Location := base.join (ofText name)

def parent (l : Location) : Location := { l with parts := l.parts.dropLast }

/-- What names lead to from a location. -/
def under (base : Location) (names : List String) : Location :=
  { base with parts := base.parts ++ names }

/-- The location without double dots, each of them taking the part before it along. Double dots
that have no part before them count the steps above the start; at the root they go nowhere. -/
structure Resolved where
  rooted : Bool
  above : Nat
  names : List String
  deriving DecidableEq

def Resolved.step (r : Resolved) (part : String) : Resolved :=
  if part = ".." then
    if r.names = [] then if r.rooted then r else { r with above := r.above + 1 }
    else { r with names := r.names.dropLast }
  else { r with names := r.names ++ [part] }

def resolve (l : Location) : Resolved := l.parts.foldl Resolved.step ⟨l.slashes != 0, 0, []⟩

/-- Whether some part holds a NUL character, which no file name can. -/
def hasNul (l : Location) : Bool := l.parts.any fun p => p.toList.contains '\x00'

example : (ofText "./a//b/./c/").text = "a/b/c" ∧ (ofText "").text = "." ∧
    (ofText "//a").text = "//a" ∧ (ofText "///a/..").text = "/a/.." := by decide
example : (ofText "a/../b").resolve = (ofText "b").resolve := by decide

end Location

end ContractGraph
