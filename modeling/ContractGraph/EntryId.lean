import ContractGraph.Text.Pieces

/-!
# Entry ids

An entry id names a source file by its path. Two spellings of one path have one normal form:
backslashes are slashes, empty and single-dot segments are gone, a double-dot segment has taken
its parent with it and is left only at the front of a relative path, and a drive letter is lower
case. One or two leading slashes stay as they are, three or more become one.
-/

namespace ContractGraph.EntryId

set_option autoImplicit false

def withSlashes (cs : List Char) : List Char := cs.map fun c => if c = '\\' then '/' else c

/-- How many leading slashes the normal form keeps. -/
def rootSlashes : List Char → Nat
  | '/' :: '/' :: '/' :: _ => 1
  | '/' :: '/' :: _ => 2
  | '/' :: _ => 1
  | _ => 0

/-- Puts one segment on a stack of segments, the nearest one first. -/
def pushSegment (rooted : Bool) (stack : List (List Char)) (segment : List Char) :
    List (List Char) :=
  if segment = [] ∨ segment = ['.'] then stack
  else if segment = ['.', '.'] then
    match stack with
    | [] => if rooted then [] else [segment]
    | top :: below => if top = ['.', '.'] then segment :: top :: below else below
  else segment :: stack

def collapse (rooted : Bool) (segments : List (List Char)) : List (List Char) :=
  (segments.foldl (pushSegment rooted) []).reverse

/-- A path of slashes without superfluous segments. -/
def collapsePath (cs : List Char) : List Char :=
  let slashes := rootSlashes cs
  let path := List.replicate slashes '/' ++
    Text.join '/' (collapse (slashes != 0) (Text.splitAt '/' cs))
  if path = [] then ['.'] else path

def lowerDrive : List Char → List Char
  | c :: ':' :: rest => (if 'A' ≤ c ∧ c ≤ 'Z' then c.toLower else c) :: ':' :: rest
  | cs => cs

def normalizeChars (cs : List Char) : List Char := lowerDrive (collapsePath (withSlashes cs))

/-- The normal form of an id; the empty id has itself. -/
def normalize (id : String) : String :=
  if id = "" then id else String.ofList (normalizeChars id.toList)

def directoryChars (cs : List Char) : List Char :=
  ((cs.reverse.dropWhile (· != '/')).drop 1).reverse

/-- What stands before the last slash, nothing when there is none. -/
def directory (id : String) : String := String.ofList (directoryChars id.toList)

def sourceExtensions : List (List Char) := [".tsx", ".ts", ".jsx", ".js"].map String.toList

/-- A name without its source extension. One newline may follow the extension and stays. -/
def dropExtensionChars (cs : List Char) : List Char :=
  let (body, newline) := Text.splitFinalNewline cs
  (sourceExtensions.findSome? (Text.dropSuffix? · body)).getD body ++ newline

def dropExtension (name : String) : String := String.ofList (dropExtensionChars name.toList)

/-- The last segment; here a backslash separates segments as well. -/
def lastSegment (cs : List Char) : List Char :=
  (cs.reverse.takeWhile fun c => c != '/' && c != '\\').reverse

/-- The last segment without its source extension. -/
def stem (id : String) : String := String.ofList (dropExtensionChars (lastSegment id.toList))

example : normalize "C:\\src\\.\\a//b/../App.tsx" = "c:/src/a/App.tsx" := by decide
example : normalize "///a/../.." = "/" ∧ normalize "//a" = "//a" ∧ normalize "a/.." = "." ∧
    normalize "../../a/.." = "../.." := by decide
example : stem "src\\App.tsx" = "App" ∧ stem "a/b.js\n" = "b\n" ∧ stem "x.test.ts" = "x.test" := by
  decide
example : directory "/a" = "" ∧ directory "a/b/c" = "a/b" ∧ directory "a" = "" := by decide

end ContractGraph.EntryId
