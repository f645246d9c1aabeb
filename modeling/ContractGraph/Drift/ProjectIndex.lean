import ContractGraph.Drift.Compare
import ContractGraph.Files.Documents

/-!
# Comparing project indices

A project index lists folders with the context file that holds the bundles of each, relative to
the folder of the index. Folders of both indices are compared by their bundles, and one whose
context file cannot be read as bundles has drifted. A folder of the new index alone is added, one
of the old index alone is orphaned, and their bundle counts go into the totals. Old context files
that left the index and still exist are listed.
-/

namespace ContractGraph

set_option autoImplicit false

inductive FolderStatus where
  | pass
  | drift
  | added
  | orphaned
  deriving DecidableEq

def FolderStatus.word : FolderStatus → String
  | .pass => "PASS"
  | .drift => "DRIFT"
  | .added => "ADDED"
  | .orphaned => "ORPHANED"

structure FolderComparison where
  folderPath : String
  contextFile : String
  status : FolderStatus
  result : Option Comparison := none
  error : Option String := none
  deriving DecidableEq

/-- Components that were added, removed and changed. -/
structure Totals where
  added : Int := 0
  removed : Int := 0
  changed : Int := 0
  deriving DecidableEq

structure IndexComparison where
  folders : List FolderComparison
  totals : Totals
  orphanedFiles : List String
  deriving DecidableEq

namespace FolderComparison

def toValue (f : FolderComparison) : Json :=
  .record ([
    ("folderPath", .str f.folderPath),
    ("contextFile", .str f.contextFile),
    ("status", .str f.status.word)] ++
    (match f.result with
      | some result => [("componentResult", result.toValue)]
      | none => []) ++
    (match f.error with
      | some error => [("error", .str error)]
      | none => []))

end FolderComparison

namespace IndexComparison

def passed (c : IndexComparison) : Bool := c.folders.all fun f => f.status = .pass

def count (c : IndexComparison) (status : FolderStatus) : Nat :=
  c.folders.countP fun f => f.status = status

def toValue (c : IndexComparison) : Json := .record [
  ("status", .str (Comparison.statusWord c.passed)),
  ("folders", .arr (c.folders.map FolderComparison.toValue)),
  ("summary", .record [
    ("totalFolders", .int c.folders.length),
    ("addedFolders", .int (c.count .added)),
    ("orphanedFolders", .int (c.count .orphaned)),
    ("driftFolders", .int (c.count .drift)),
    ("passFolders", .int (c.count .pass)),
    ("totalComponentsAdded", .int c.totals.added),
    ("totalComponentsRemoved", .int c.totals.removed),
    ("totalComponentsChanged", .int c.totals.changed)]),
  ("orphanedFiles", .strings c.orphanedFiles)]

/-- The value as far as it can be written: a total must not have too many digits. -/
def shown (c : IndexComparison) : Except Fault Json :=
  let totals := [c.totals.added, c.totals.removed, c.totals.changed]
  if totals.any fun n => Json.maxDigits < Binary64.decimalLength n.natAbs then
    .error (.excess .writtenDigits)
  else .ok c.toValue

end IndexComparison

/-- Compares the bundles of two files. -/
def compareBundleFiles (t : FileTree) (old new : String) : Logged Comparison := do
  let a ← (t.loadBundles old : Except Fault Json)
  let b ← (t.loadBundles new : Except Fault Json)
  compareBundles a b

namespace ProjectIndex

/-- The entries of an index by context file. Entries that are no objects or name no context file
are passed over; of several entries with one context file the last one counts. -/
def foldersOf (index : Fields) : Table String Fields :=
  match index.getD "folders" with
  | .arr items => Table.ofList (items.filterMap fun
      | .obj folder =>
        let file := Fields.getD folder "contextFile"
        if file.truthy then some (file.text, folder) else none
      | _ => none)
  | _ => .empty

/-- The path of a folder, its context file when it has none. -/
def folderPath (folder : Fields) : String :=
  ((folder.getD "path").orElse (folder.getD "contextFile")).text

/-- The bundle count of a folder; truth values count as one and zero. -/
def bundleCount (folder : Fields) : Int :=
  match folder.getD "bundles" with
  | .int n => n
  | .bool b => if b then 1 else 0
  | _ => 0

def Totals.plus (a b : Totals) : Totals :=
  ⟨a.added + b.added, a.removed + b.removed, a.changed + b.changed⟩

def totalsOf (c : Comparison) : Totals := ⟨c.added.length, c.removed.length, c.changed.length⟩

/-- A folder of both indices. A reported fault of its files makes it drift; any other fault ends
the comparison. -/
def compareFolder (t : FileTree) (folder : Fields) (contextFile : String) (old new : Location) :
    Logged (FolderComparison × Totals) :=
  let compared := compareBundleFiles t old.text new.text
  let path := folderPath folder
  match compared.outcome with
  | .ok c =>
    let status := if c.passed then FolderStatus.pass else .drift
    ⟨compared.events, .ok (⟨path, contextFile, status, some c, none⟩, totalsOf c)⟩
  | .error e =>
    if e.isReported then
      ⟨compared.events ++ [.folderFailed contextFile e.message],
        .ok (⟨path, contextFile, .drift, none, some e.message⟩, {})⟩
    else ⟨compared.events, .error e⟩

/-- One context file of either index. -/
def compareEntry (t : FileTree) (oldBase newBase : Location) (old new : Table String Fields)
    (contextFile : String) : Logged (Option (FolderComparison × Totals)) :=
  match old.get? contextFile, new.get? contextFile with
  | some _, some folder =>
    some <$> compareFolder t folder contextFile (oldBase.child contextFile)
      (newBase.child contextFile)
  | none, some folder =>
    return some (⟨folderPath folder, contextFile, .added, none, none⟩,
      { added := bundleCount folder })
  | some folder, none =>
    return some (⟨folderPath folder, contextFile, .orphaned, none, none⟩,
      { removed := bundleCount folder })
  | none, none => return none

/-- The context files of both indices, those of the old one first. -/
def contextFiles (old new : Table String Fields) : List String :=
  old.keys ++ new.keys.filter fun file => !old.contains file

def isExistingFile (t : FileTree) (base : Location) (file : String) : Except Fault Bool :=
  (t.isFile (base.child file)).mapError .system

/-- Compares the indices in two files folder by folder. -/
def compare (t : FileTree) (oldPath newPath : String) : Logged IndexComparison := do
  let oldFile := Location.ofText oldPath
  let newFile := Location.ofText newPath
  let old := foldersOf (← (t.loadIndex oldFile.text : Except Fault Fields))
  let new := foldersOf (← (t.loadIndex newFile.text : Except Fault Fields))
  let compared ← (contextFiles old new).mapM
    (compareEntry t oldFile.parent newFile.parent old new)
  let entries := compared.filterMap id
  let gone := old.keys.filter fun file => !new.contains file
  let left ← (gone.filterM (isExistingFile t oldFile.parent) : Except Fault (List String))
  return {
    folders := Text.sortedOn (·.folderPath) (entries.map (·.1))
    totals := (entries.map (·.2)).foldl Totals.plus {}
    orphanedFiles := Text.sorted left }

end ProjectIndex

end ContractGraph
