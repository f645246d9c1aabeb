import ContractGraph.Bundle.Validation
import ContractGraph.Drift.ProjectIndex
import ContractGraph.Manifest.Similar
import ContractGraph.Manifest.Stats

/-!
# Reports

What a command leaves behind: the events it logged, the lines for both output streams, its exit
status and the files. A fault that the program has words for becomes a line on the error stream,
any other one is handed on; both end a command with status one.

Beside it stand the lines in which results are shown.
-/

namespace ContractGraph.CommandLine

set_option autoImplicit false

structure Report where
  events : List Event := []
  out : List String := []
  err : List String := []
  status : Nat := 0
  fault : Option Fault := none
  tree : FileTree

namespace Report

def ofFault (t : FileTree) (e : Fault) : Report :=
  if e.isReported then { tree := t, err := [s!"Error: {e.message}"], status := 1 }
  else { tree := t, fault := some e, status := 1 }

/-- The report of an outcome, with the events on the way to it in front. -/
def ofLogged {α : Type} (t : FileTree) (x : Logged α) (report : α → Report) : Report :=
  let r := match x.outcome with
    | .ok a => report a
    | .error e => ofFault t e
  { r with events := x.events ++ r.events }

end Report

def mostUsedLimit : Int := 5

def manifestLines (m : Manifest) (path : String) : List String :=
  let used := (m.stats mostUsedLimit).mostUsed.filter fun r => r.2 != 0
  [s!"Manifest written to {path}",
    s!"  Components: {m.components.size}",
    s!"  Roots: {m.roots.length}",
    s!"  Leaves: {m.leaves.length}"] ++
  (if m.warnings.isEmpty then [] else [s!"  Ambiguous references: {m.warnings.length}"]) ++
  (if used.isEmpty then [] else ["\nMost used:"]) ++
  used.map fun r => s!"  {r.1} ({r.2})"

def deltaLine (indent : String) (d : Delta) : String :=
  s!"{indent}    {d.word}: {d.old.display} -> {d.new.display}"

def changeLines (indent : String) (c : ChangedComponent) : List String :=
  s!"{indent}~ {c.id}" :: c.deltas.map (deltaLine indent)

def comparisonLines (indent : String) (c : Comparison) : List String :=
  c.added.map (indent ++ "+ " ++ ·) ++ c.removed.map (indent ++ "- " ++ ·) ++
    c.changed.flatMap (changeLines indent)

def FolderStatus.sign : FolderStatus → String
  | .pass => "="
  | .drift => "~"
  | .added => "+"
  | .orphaned => "-"

def folderLines (f : FolderComparison) : List String :=
  [s!"  [{FolderStatus.sign f.status}] {f.status.word} {f.contextFile}"] ++
  (match f.error with
    | some error => if error = "" then [] else [s!"        {error}"]
    | none => []) ++
  (match f.result with
    | some result => comparisonLines "        " result
    | none => [])

def indexLines (c : IndexComparison) : List String :=
  [Comparison.statusWord c.passed,
    s!"  Folders: {c.folders.length} (added {c.count .added}, orphaned {c.count .orphaned}, " ++
      s!"drift {c.count .drift}, pass {c.count .pass})",
    s!"  Components: +{c.totals.added} -{c.totals.removed} ~{c.totals.changed}"] ++
  c.folders.flatMap folderLines ++
  c.orphanedFiles.map ("  Orphaned file on disk: " ++ ·)

def similarLines (key : String) (k : SimilarKeys) : List String :=
  let listed (keys : List Json) : List String :=
    if keys.isEmpty then ["  (none)"] else keys.map fun other => "  " ++ other.text
  s!"Same structure as {key}:" :: listed k.structures ++
    s!"Same signature as {key}:" :: listed k.signatures

end ContractGraph.CommandLine
