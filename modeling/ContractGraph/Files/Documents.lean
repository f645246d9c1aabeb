import ContractGraph.Contract.Basic
import ContractGraph.Package.Versions
import ContractGraph.Text.Sorted

/-!
# Documents in files

Contracts are read from one JSON file that holds a contract or an array of them, or from the
sidecar files below a folder: those with the sidecar suffix that are in no build or vendor folder,
in the order of their paths part by part. Looking for them walks through all folders, those that are
skipped as well. The walk fails when it has to ask for a path that is too long, and when folders are
nested deeper than it can go. Bundles are read from a file that holds an array of them or a single
one. A project index has a type of its own and lists folders.
-/

namespace ContractGraph

set_option autoImplicit false

def sidecarSuffix : String := ".uif.json"

def skippedFolders : List String := ["node_modules", "dist", "build", ".git", ".next", "coverage"]

namespace FileTree

def readDocument (t : FileTree) (l : Location) : Except Fault Json :=
  match t.readText l with
  | .error (.system e) =>
    if e = .notFound then .error (.document (.notFound l.text))
    else .error (.document (.unreadable l.text e))
  | .error e => .error e
  | .ok text =>
    match Json.read text with
    | .ok v => .ok v
    | .error (.excess e) => .error (.excess e)
    | .error fault => .error (.document (.invalidJson l.text fault))

/-- Order of paths, part by part. -/
def pathAtMost : List String → List String → Bool
  | [], _ => true
  | _ :: _, [] => false
  | a :: as, b :: bs => if a = b then pathAtMost as bs else Text.atMost a b

/-- The names that lead from a folder to one of the files below it. -/
def below (folder names : List String) : Option (List String) :=
  let rest := names.drop folder.length
  if folder.isPrefixOf names && rest.head?.any (· != "..") then some rest else none

/-- Whether names end in the name of a sidecar file. -/
def hasSidecarName (names : List String) : Bool :=
  names.getLast?.any fun name => sidecarSuffix.toList.isSuffixOf name.toList

/-- Whether the names that lead from a root to a file make it a sidecar. -/
def isSidecarPath (names : List String) : Bool :=
  hasSidecarName names && names.all fun name => !skippedFolders.contains name

/-- Whether a walk enters the folder that names lead to. -/
def isEntered (names : List String) : Bool := decide (names.length ≤ maxWalkNesting)

/-- Whether a walk asks for a node by its path. It does so for every folder that it enters, to see
what is in it, and there for whatever has the name of a sidecar file. -/
def isAsked (names : List String) (node : FileNode) : Bool :=
  node = .folder && isEntered names || hasSidecarName names && isEntered names.dropLast

/-- Whether a walk below a root has to ask for a path that is too long. -/
def asksTooFar (t : FileTree) (root : Location) (folder : List String) : Bool :=
  t.nodes.entries.any fun e => (below folder e.1).any fun names =>
    isAsked names e.2 && decide (maxPathLength < (root.under names).text.utf8ByteSize)

/-- Whether a folder is nested so deep that a walk cannot enter it. -/
def goesTooDeep (t : FileTree) (folder : List String) : Bool :=
  t.nodes.entries.any fun e => (below folder e.1).any fun names =>
    e.2 = .folder && !isEntered names

/-- The sidecar files below a root. -/
def findSidecars (t : FileTree) (root : Location) : Except Fault (List Location) :=
  match t.isFolder root with
  | .error e => .error (.system e)
  | .ok false => .ok []
  | .ok true =>
    match t.follow root with
    | .ok (.inside folder) =>
      if t.asksTooFar root folder then .error (.system .nameTooLong)
      else if t.goesTooDeep folder then .error .foldersTooDeep
      else
        let files := t.nodes.entries.filterMap fun e =>
          if e.2 = .folder then none else below folder e.1
        let sidecars := (files.filter isSidecarPath).mergeSort pathAtMost
        .ok (sidecars.map root.under)
    | _ => .ok []

/-- The contract documents of a source, each with the path that messages name. -/
def contractDocuments (t : FileTree) (source : Location) : Except Fault (List (Location × Json)) :=
  match t.isFolder source with
  | .error e => .error (.system e)
  | .ok true =>
    match t.findSidecars source with
    | .error e => .error e
    | .ok files => files.mapM fun l => (t.readDocument l).map fun d => (l, d)
  | .ok false =>
    (t.readDocument source).map fun d =>
      match d with
      | .arr items => items.map fun item => (source, item)
      | d => [(source, d)]

def contractOf (d : Location × Json) : Except Fault Contract :=
  (Contract.ofDocument d.2).mapError fun cause => .document (.invalidContract d.1.text cause)

/-- The contracts of a file or of the sidecar files below a folder. -/
def loadContracts (t : FileTree) (path : String) : Logged (List Contract) := do
  let source := Location.ofText path
  let documents ← t.contractDocuments source
  let contracts ← (documents.mapM contractOf : Except Fault (List Contract))
  Logged.emit (.contractsLoaded source.text contracts.length)
  return contracts

/-- The bundles of a file; a single bundle stands for an array of one. -/
def loadBundles (t : FileTree) (path : String) : Except Fault Json := do
  match ← t.readDocument (.ofText path) with
  | .obj fields => return .arr [.obj fields]
  | .arr items => return .arr items
  | _ => .error (.document (.notBundles path))

/-- The project index of a file. -/
def loadIndex (t : FileTree) (path : String) : Except Fault Fields := do
  match ← t.readDocument (.ofText path) with
  | .obj fields =>
    let type := Fields.getD fields "type"
    if type ≠ .str indexType then .error (.document (.notIndex path type.text))
    else
      match Fields.getD fields "folders" with
      | .arr _ => return fields
      | _ => .error (.document (.noFolders path))
  | v => .error (.document (.notIndex path v.shape.name))

end FileTree

end ContractGraph
