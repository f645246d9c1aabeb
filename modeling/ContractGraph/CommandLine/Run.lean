import ContractGraph.CommandLine.Reading
import ContractGraph.CommandLine.Report
import ContractGraph.Manifest.File
import ContractGraph.Text.ControlSequence

/-!
# Running a command line

A command is run on the files and leaves a report. Running a command line reads it, runs the
command if there is one, and gives the exit status, the text of both output streams, the files and
the fault that the program had no words for. Lines are written without control sequences. Log lines
come first on the error stream and are written as they are. Both streams take every character. A
refused command line ends with status two.
-/

namespace ContractGraph.CommandLine

set_option autoImplicit false

def writeManifest (now : String) (t : FileTree) (contracts folder : String) (hashIndex : Bool) :
    Logged (Manifest × Location × FileTree) := do
  let contracts ← t.loadContracts contracts
  let m ← Manifest.build now .standard hashIndex contracts
  let written ← m.write folder t
  return (m, written)

/-- The contracts by their entry ids. -/
def contractsById (contracts : List Contract) : Table String Contract :=
  .ofList (contracts.map fun c => (c.entryId, c))

def packContracts (now : String) (t : FileTree) (contracts entry : String)
    (options : Bundle.PackOptions) : Logged Bundle := do
  let contracts ← t.loadContracts contracts
  let m ← Manifest.build now .standard false contracts
  (Bundle.pack now t {} m (contractsById contracts) entry options).2

def packSummary (b : Bundle) (output : String) (maxNodes : Int) : List String :=
  [s!"Bundle for {b.entryId} written to {output}",
    s!"  Nodes: {b.nodes.length}",
    s!"  Missing: {b.missing.length}"] ++
  if b.truncated then [s!"  Truncated at {maxNodes} nodes"] else []

/-- Shows a bundle, or writes it to a file. -/
def deliverBundle (t : FileTree) (b : Bundle) (maxNodes : Int) : Option String → Report
  | none => { tree := t, out := [(Json.arr [b.toDocument]).indented] }
  | some output =>
    match t.writeText (.ofText output) ((Json.arr [b.toDocument]).indented ++ "\n") with
    | .ok t => { tree := t, err := packSummary b output maxNodes }
    | .error e => .ofFault t (.ofAccess e)

def driftStatus (passed : Bool) : Nat := if passed then 0 else 1

def reportComparison (t : FileTree) (asJson : Bool) (c : Comparison) : Report where
  tree := t
  out :=
    if asJson then [c.toValue.indented]
    else Comparison.statusWord c.passed :: comparisonLines "  " c
  status := driftStatus c.passed

/-- The report of a comparison. Where a total cannot be written, the lines before it are. -/
def reportIndexComparison (t : FileTree) (asJson : Bool) (c : IndexComparison) : Report :=
  match c.shown with
  | .ok value =>
    { tree := t
      out := if asJson then [value.indented] else indexLines c
      status := driftStatus c.passed }
  | .error fault =>
    { tree := t
      out := if asJson then [] else (indexLines c).take 2
      fault := some fault
      status := 1 }

def reportValidation (t : FileTree) (document : Json) : Report :=
  let r := validate document
  let found := (r.errors.map fun e => s!"  [!] {e.message}") ++
    r.warnings.map fun w => s!"  [~] {w.message}"
  if r.ok then
    { tree := t
      out := found ++
        [s!"Valid: {r.bundleCount} bundle(s), {r.nodeCount} node(s), {r.edgeCount} edge(s)"] }
  else { tree := t, out := found, err := [s!"Invalid: {r.errors.length} error(s)"], status := 1 }

/-- The key that an entry names and the keys of similar components, none for an unknown entry. -/
def findSimilar (now : String) (t : FileTree) (contracts entry : String) :
    Logged (Option (String × SimilarKeys)) := do
  let contracts ← t.loadContracts contracts
  let m ← Manifest.build now .standard true contracts
  match (← (m.resolver : Except ShapeFault Resolver)).lookup (EntryId.normalize entry) with
  | none => return none
  | some key => return some (key, ← (m.similar key : Except ShapeFault SimilarKeys))

def reportSimilar (t : FileTree) (entry : String) : Option (String × SimilarKeys) → Report
  | none => { tree := t, err := [s!"Component not found: {entry}"], status := 1 }
  | some (key, keys) => { tree := t, out := similarLines key keys }

/-- Runs a command on the files. -/
def Command.run (now : String) (t : FileTree) : Command → Report
  | .manifest contracts folder hashIndex =>
    .ofLogged t (writeManifest now t contracts folder hashIndex) fun (m, path, written) =>
      { tree := written, out := manifestLines m path.text }
  | .pack contracts entry depth maxNodes projectRoot strict output =>
    let options : Bundle.PackOptions :=
      { limits := Limits.ofBounds (.whole depth) (.whole maxNodes)
        versions := .root projectRoot, strict }
    .ofLogged t (packContracts now t contracts entry options) fun b =>
      deliverBundle t b maxNodes output
  | .compare old new asJson true =>
    .ofLogged t (ProjectIndex.compare t old new) (reportIndexComparison t asJson)
  | .compare old new asJson false =>
    .ofLogged t (compareBundleFiles t old new) (reportComparison t asJson)
  | .validate file =>
    .ofLogged t (t.readDocument (.ofText file) : Except Fault Json) (reportValidation t)
  | .similar contracts entry =>
    .ofLogged t (findSimilar now t contracts entry) (reportSimilar t entry)

/-- What a command line leaves behind. -/
structure Finish where
  status : Nat
  out : String := ""
  err : String := ""
  fault : Option Fault := none
  tree : FileTree

def textOfLines (lines : List String) : String := String.join (lines.map (· ++ "\n"))

def plainText (lines : List String) : String := textOfLines (lines.map Text.plain)

/-- Runs a command line. Documents bear the time `now`, and log lines of JSON the time `logTime`. -/
def run (now logTime : String) (environment : List (String × String)) (t : FileTree)
    (words : List String) : Finish :=
  match Reading.ofWords environment t words with
  | .page lines => { status := 0, out := plainText lines, tree := t }
  | .refused lines => { status := 2, err := plainText lines, tree := t }
  | .failed fault => { status := 1, fault := some fault, tree := t }
  | .command log command =>
    let r := command.run now t
    { status := r.status
      out := plainText r.out
      err := textOfLines (log.lines logTime r.events) ++ plainText r.err
      fault := r.fault
      tree := r.tree }

end ContractGraph.CommandLine
