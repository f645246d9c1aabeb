import ContractGraph.CommandLine.Page
import ContractGraph.Settings

/-!
# Commands

The commands of the program: what each takes, and how its values become a command that can be run.
The settings give defaults.
-/

namespace ContractGraph.CommandLine

set_option autoImplicit false

inductive Command where
  | manifest (contracts folder : String) (hashIndex : Bool)
  | pack (contracts entry : String) (depth maxNodes : Int) (projectRoot : String) (strict : Bool)
      (output : Option String)
  | compare (old new : String) (asJson asIndex : Bool)
  | validate (file : String)
  | similar (contracts entry : String)
  deriving DecidableEq

inductive CommandName where
  | manifest
  | pack
  | compare
  | validate
  | similar
  deriving DecidableEq

def contractsArgument : ArgumentSpec := ⟨"CONTRACTS", .path .existing⟩

def entryArgument : ArgumentSpec := ⟨"ENTRY", .text⟩

def manifestOptions : List OptionSpec := [
  { short := some 'o', long := "--out-dir", form := .valued (.path .folder) (some ".")
    description := "Directory for the manifest file" },
  { long := "--hash-index", form := .toggle "--no-hash-index"
    description := "Include structure/signature hash indices" }]

def packOptions (s : Settings) : List OptionSpec := [
  { long := "--depth", form := .valued (.integer 0) (some (toString s.depth))
    description := "Dependency depth to include" },
  { long := "--max-nodes", form := .valued (.integer 1) (some (toString s.maxNodes))
    description := "Hard cap on packed components" },
  { long := "--project-root", form := .valued (.path .folder) (some s.projectRoot)
    description := "Directory holding package.json" },
  { long := "--strict", description := "Fail when a visited component has no contract" },
  { short := some 'o', long := "--output", form := .valued .text none
    description := "Output file (default: stdout)" }]

def compareOptions : List OptionSpec := [
  { long := "--json", description := "Print the result as JSON" },
  { long := "--index", description := "OLD and NEW are project indices (context_main.json)" }]

namespace CommandName

def all : List CommandName := [.manifest, .pack, .compare, .validate, .similar]

def word : CommandName → String
  | .manifest => "manifest"
  | .pack => "pack"
  | .compare => "compare"
  | .validate => "validate"
  | .similar => "similar"

def ofWord? (word : String) : Option CommandName := all.find? fun c => c.word = word

def spec (s : Settings) : CommandName → CommandSpec
  | .manifest => {
    name := word .manifest
    summary := "Build the project manifest from contracts and write it."
    arguments := [contractsArgument]
    options := manifestOptions }
  | .pack => {
    name := word .pack
    summary := "Pack ENTRY and its dependencies into a one-bundle document."
    arguments := [contractsArgument, entryArgument]
    options := packOptions s }
  | .compare => {
    name := word .compare
    summary := "Compare two bundle snapshots or project indices; exit 1 on DRIFT or error."
    arguments := [⟨"OLD_FILE", .path .existingFile⟩, ⟨"NEW_FILE", .path .existingFile⟩]
    options := compareOptions }
  | .validate => {
    name := word .validate
    summary := "Validate a bundle document; exit 1 on errors."
    arguments := [⟨"FILE", .path .existingFile⟩]
    options := [] }
  | .similar => {
    name := word .similar
    summary := "List components sharing ENTRY's structure or signature hash."
    arguments := [contractsArgument, entryArgument]
    options := [] }

/-- The command with the given values. -/
def command (s : Settings) (v : Values) : CommandName → Command
  | .manifest =>
    .manifest (v.argument 0) (v.text "--out-dir") (v.toggled "--hash-index" s.includeHashIndex)
  | .pack =>
    .pack (v.argument 0) (v.argument 1) (v.integer "--depth") (v.integer "--max-nodes")
      (v.text "--project-root") (v.isOn "--strict") (v.last? "--output")
  | .compare => .compare (v.argument 0) (v.argument 1) (v.isOn "--json") (v.isOn "--index")
  | .validate => .validate (v.argument 0)
  | .similar => .similar (v.argument 0) (v.argument 1)

end CommandName

def verboseOption : OptionSpec :=
  { short := some 'v', long := "--verbose", description := "Verbose logging" }

def programSpec (s : Settings) : ProgramSpec where
  summary := "stamp-graph: UI contract dependency graphs, bundles and drift checks."
  options := [verboseOption]
  commands := CommandName.all.map (CommandName.spec s)

end ContractGraph.CommandLine
