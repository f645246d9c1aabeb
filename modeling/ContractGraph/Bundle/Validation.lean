import ContractGraph.Bundle.Pack
import ContractGraph.Bundle.Schema

/-!
# Validating bundle documents

A document is an array of bundles. Each bundle is checked on its own, and what is found carries
the number of the bundle. Errors fail the document, warnings do not.
-/

namespace ContractGraph

set_option autoImplicit false

namespace Bundle

/-- What makes a bundle invalid. -/
inductive Problem where
  | notObject
  | wrongType (found : String)
  | wrongVersion (found : String)
  | noEntryId
  | invalidGraph
  | invalidMeta
  | wrongContractType (node : String)
  deriving DecidableEq

/-- What is unusual in a bundle. -/
inductive Concern where
  | contractVersion (node found : String)
  | hashFormat (node member : String)
  | bundleHashFormat
  deriving DecidableEq

def Problem.message : Problem → String
  | .notObject => "expected an object"
  | .wrongType found => s!"Invalid type (expected '{documentType}', got '{found}')"
  | .wrongVersion found => s!"Invalid schemaVersion (expected '{schemaVersion}', got '{found}')"
  | .noEntryId => "Missing entryId"
  | .invalidGraph => "Invalid graph structure"
  | .invalidMeta => "Invalid meta structure"
  | .wrongContractType node => s!"Node {node} has invalid contract type"

def Concern.message : Concern → String
  | .contractVersion node found => s!"Node {node} has unexpected contract version {found}"
  | .hashFormat node member => s!"Node {node} {member} has unexpected format"
  | .bundleHashFormat => "bundleHash has unexpected format"

/-- What was found in one bundle. -/
structure Findings where
  problems : List Problem := []
  concerns : List Concern := []
  nodeCount : Nat := 0
  edgeCount : Nat := 0
  deriving DecidableEq

def knownContractVersions : List String := ["0.3", "0.4"]

def optionText : Option String → String
  | some s => s
  | none => Json.null.text

def headConcerns (node : String) (head : ContractHead) : List Concern :=
  (if head.schemaVersion.any knownContractVersions.contains then []
    else [.contractVersion node (optionText head.schemaVersion)]) ++
  (if head.semanticHash.all Hash.isContractHash then [] else [.hashFormat node "semanticHash"]) ++
  (if head.fileHash.all Hash.isContractHash then [] else [.hashFormat node "fileHash"])

/-- The head of a contract of the right type. -/
def validHead? (n : GraphNode) : Option ContractHead :=
  n.contract.filter fun head => head.type = some Contract.documentType

def nodeProblems (n : GraphNode) : List Problem :=
  if (validHead? n).isSome then [] else [.wrongContractType n.entryId]

def nodeConcerns (n : GraphNode) : List Concern :=
  match validHead? n with
  | some head => headConcerns n.entryId head
  | none => []

def hashConcerns (bundleHash : Json) : List Concern :=
  match bundleHash with
  | .str s => if s = "" ∨ Hash.isBundleHash s then [] else [.bundleHashFormat]
  | v => if v.truthy then [.bundleHashFormat] else []

def headerProblems (fields : Fields) : List Problem :=
  let type := fields.getD "type"
  let version := fields.getD "schemaVersion"
  (if type = .str documentType then [] else [.wrongType type.text]) ++
  (if version = .str schemaVersion then [] else [.wrongVersion version.text]) ++
  (if (fields.getD "entryId").truthy then [] else [.noEntryId])

def metaProblems (fields : Fields) : List Problem :=
  if isMeta (fields.getD "meta") then [] else [.invalidMeta]

/-- Checks one bundle. -/
def check : Json → Findings
  | .obj fields =>
    match Graph.ofValue? (Fields.getD fields "graph") with
    | none => {
        problems := headerProblems fields ++ .invalidGraph :: metaProblems fields
        concerns := hashConcerns (Fields.getD fields "bundleHash") }
    | some graph => {
        problems :=
          headerProblems fields ++ metaProblems fields ++ graph.nodes.flatMap nodeProblems
        concerns :=
          graph.nodes.flatMap nodeConcerns ++ hashConcerns (Fields.getD fields "bundleHash")
        nodeCount := graph.nodes.length
        edgeCount := graph.edges.length }
  | _ => { problems := [.notObject] }

end Bundle

/-- An error of a document: it is no array, or one of its bundles has a problem. -/
inductive DocumentError where
  | notArray
  | inBundle (number : Nat) (problem : Bundle.Problem)
  deriving DecidableEq

structure DocumentWarning where
  number : Nat
  concern : Bundle.Concern
  deriving DecidableEq

structure ValidationReport where
  errors : List DocumentError := []
  warnings : List DocumentWarning := []
  bundleCount : Nat := 0
  nodeCount : Nat := 0
  edgeCount : Nat := 0
  deriving DecidableEq

def DocumentError.message : DocumentError → String
  | .notArray => "Invalid format: expected array of bundles"
  | .inBundle number problem => s!"Bundle {number}: {problem.message}"

def DocumentWarning.message (w : DocumentWarning) : String :=
  s!"Bundle {w.number}: {w.concern.message}"

namespace ValidationReport

def ok (r : ValidationReport) : Bool := r.errors.isEmpty

def ofFindings (number : Nat) (f : Bundle.Findings) : ValidationReport where
  errors := f.problems.map (.inBundle number)
  warnings := f.concerns.map (⟨number, ·⟩)
  bundleCount := 1
  nodeCount := f.nodeCount
  edgeCount := f.edgeCount

/-- A report followed by another one. -/
def append (a b : ValidationReport) : ValidationReport where
  errors := a.errors ++ b.errors
  warnings := a.warnings ++ b.warnings
  bundleCount := a.bundleCount + b.bundleCount
  nodeCount := a.nodeCount + b.nodeCount
  edgeCount := a.edgeCount + b.edgeCount

/-- The report on bundles of which the first has the given number. -/
def ofBundles (number : Nat) : List Json → ValidationReport
  | [] => {}
  | bundle :: rest =>
    (ofFindings number (Bundle.check bundle)).append (ofBundles (number + 1) rest)

end ValidationReport

/-- The report on a document. -/
def validate : Json → ValidationReport
  | .arr bundles => .ofBundles 1 bundles
  | _ => { errors := [.notArray] }

end ContractGraph
