import ContractGraph.Fault

/-!
# Declared package versions

The version of a package is the first one that is not empty among the dependencies, development
dependencies and peer dependencies that the package file of a root folder declares. The file of a
root is read once: what it held at the first question, also that it was missing or broken, answers
every later one until the cache is cleared. Spellings of one root are one root.
-/

namespace ContractGraph

set_option autoImplicit false

def packageFileName : String := "package.json"

def dependencySections : List String := ["dependencies", "devDependencies", "peerDependencies"]

/-- The declared versions, section by section. -/
structure PackageFile where
  sections : List (List (String × String))
  deriving DecidableEq

namespace PackageFile

/-- A section lists texts; one that is no object lists nothing. -/
def sectionOf : Json → List (String × String)
  | .obj fields => fields.map fun f => ((Json.ofKey f.1).text, f.2.text)
  | _ => []

/-- The package file of a document. One without any section declares nothing, like a missing one. -/
def ofDocument? : Json → Option PackageFile
  | .obj fields =>
    let found := dependencySections.map fun name => Fields.getD fields name
    if found.any fun v => v.shape = .obj then some ⟨found.map sectionOf⟩ else none
  | _ => none

def version? (f : PackageFile) (package : String) : Option String :=
  f.sections.findSome? fun entries => (entries.lookup package).filter (· != "")

/-- The version of the package under a value. No package is under a value that is no text, but the
value has to be able to be a key. -/
def versionGiven? (f : PackageFile) (package : Json) : Except ShapeFault (Option String) :=
  match package with
  | .str package => .ok (f.version? package)
  | v => v.asKey.map fun _ => none

end PackageFile

/-- What a question for a version leaves behind. -/
structure VersionAnswer (σ : Type) where
  state : σ
  events : List Event
  version : Except Fault (Option String)

/-- The package files that were asked for, by resolved root. -/
structure VersionCache where
  files : Table Location.Resolved (Option PackageFile) := .empty

namespace FileTree

/-- Text of a file, or why it cannot be had. -/
def readText (t : FileTree) (l : Location) : Except Fault String :=
  match t.readBytes l with
  | .error e => .error (.ofAccess e)
  | .ok content =>
    match decodeText? content with
    | some text => .ok text
    | none => .error .notUtf8

/-- The package file of a folder as it stands. A file that cannot be read or is no JSON text is
reported and counts as missing. -/
def packageFile (t : FileTree) (root : Location) : Logged (Option PackageFile) := do
  let path := root.child packageFileName
  match t.isFile path with
  | .error e => .fail (.system e)
  | .ok false => return none
  | .ok true =>
    match (t.readText path).map Json.read with
    | .error _ | .ok (.error (.malformed ..)) => do
      Logged.emit (.packageFileUnreadable path.text)
      return none
    | .ok (.error (.excess e)) => .fail (.excess e)
    | .ok (.ok document) => return PackageFile.ofDocument? document

end FileTree

namespace VersionCache

/-- The package file of a root, from the cache or else from the files. -/
def load (t : FileTree) (root : Location) (cache : VersionCache) :
    VersionCache × Logged (Option PackageFile) :=
  if root.hasNul then (cache, .fail .nulInPath)
  else
    match cache.files.get? root.resolve with
    | some file => (cache, Pure.pure file)
    | none =>
      let found := t.packageFile root
      match found.outcome with
      | .ok file => (⟨cache.files.insert root.resolve file⟩, found)
      | .error _ => (cache, found)

/-- The declared version of a package, none when it is not known. -/
def version (t : FileTree) (root : Location) (cache : VersionCache) (package : String) :
    VersionAnswer VersionCache :=
  let (cache, found) := cache.load t root
  ⟨cache, found.events, found.outcome.map fun file => file.bind (·.version? package)⟩

/-- The declared version of the package under a value. -/
def versionGiven (t : FileTree) (root : Location) (cache : VersionCache) (package : Json) :
    VersionAnswer VersionCache :=
  let (cache, found) := cache.load t root
  ⟨cache, found.events, do
    match ← found.outcome with
    | some file => file.versionGiven? package
    | none => return none⟩

end VersionCache

end ContractGraph
