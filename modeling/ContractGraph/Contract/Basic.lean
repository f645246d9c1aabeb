import ContractGraph.Json.Reading

/-!
# Contracts

A contract describes one source component: what it is composed of, its interface, what it exports
and where it is used. It is read from a document that may spell its parts in an older or a newer
way; the newer key wins whenever it is there, even with the value null. Optional parts of the
wrong type count as missing, except that the props and events of the interface have to be records.
-/

namespace ContractGraph

set_option autoImplicit false

/-- What a module exports. A named export without names is known to be named and no more. -/
inductive Exports where
  | defaultExport
  | named (names : List String)
  | absent
  deriving DecidableEq

inductive ExportKind where
  | defaultExport
  | named
  | absent
  deriving DecidableEq

/-- Component names in `components` are the outgoing edges of the component. -/
structure Composition where
  variableNames : List String := []
  hooks : List String := []
  components : List String := []
  functions : List String := []
  imports : List String := []
  deriving DecidableEq

structure Interface where
  props : Fields := []
  events : Fields := []
  state : Option Fields := none
  deriving DecidableEq

structure Contract where
  entryId : String
  description : String := ""
  composition : Composition := {}
  interface : Interface := {}
  exports : Exports := .absent
  semanticHash : String := ""
  fileHash : String := ""
  usedIn : List String := []
  kind : String := "react:component"
  /-- The document that the contract was read from. -/
  source : Json
  deriving DecidableEq

/-- The texts of the items of an array; any other value has none. -/
def Json.itemTexts : Json → List String
  | .arr items => items.map text
  | _ => []

/-- The text of a value, a default for one that is not truthy. -/
def Json.textOr (v : Json) (default : String) : String := (v.orElse (.str default)).text

namespace Exports

def kind : Exports → ExportKind
  | .defaultExport => .defaultExport
  | .named _ => .named
  | .absent => .absent

def names : Exports → List String
  | .named names => names
  | _ => []

def ofValue : Json → Exports
  | .str s => if s = "default" then .defaultExport else if s = "named" then .named [] else .absent
  | .obj fields =>
    match Fields.getD fields "named" with
    | .arr (n :: rest) => .named ((n :: rest).map Json.text)
    | _ => .absent
  | _ => .absent

def toValue : Exports → Json
  | .defaultExport => .str "default"
  | .named [] => .str "named"
  | .named names => .record [("named", .strings names)]
  | .absent => .null

end Exports

/-- The word for an export kind in documents and reports. -/
def ExportKind.word : ExportKind → String
  | .defaultExport => "default"
  | .named => "named"
  | .absent => "none"

namespace Composition

def ofFields (fields : Fields) : Composition where
  variableNames := (fields.getD "variables").itemTexts
  hooks := (fields.getD "hooks").itemTexts
  components := (fields.getD "components").itemTexts
  functions := (fields.getD "functions").itemTexts
  imports := (fields.getD "imports").itemTexts

def ofValue (v : Json) : Except ShapeFault Composition :=
  ((v.orElse (.obj [])).fieldsFor "get").map ofFields

def toValue (c : Composition) : Json := .record [
  ("variables", .strings c.variableNames),
  ("hooks", .strings c.hooks),
  ("components", .strings c.components),
  ("functions", .strings c.functions),
  ("imports", .strings c.imports)]

end Composition

namespace Interface

def stateOf : Json → Option Fields
  | .obj fields => some fields
  | _ => none

def ofFields (fields : Fields) : Except ShapeFault Interface := do
  let props ← (fields.getD "props").toRecord
  let events ← ((fields.get? "emits").getD (fields.getD "events")).toRecord
  return { props, events, state := stateOf (fields.getD "state") }

def ofValue (v : Json) : Except ShapeFault Interface := do
  let fields ← (v.orElse (.obj [])).fieldsFor "get"
  ofFields fields

def toValue (i : Interface) : Json :=
  .record ([("props", .obj i.props), ("emits", .obj i.events)] ++
    match i.state with
    | some state => [("state", .obj state)]
    | none => [])

end Interface

/-- The members of an object, none for any other value. -/
def Json.fieldsOrNone : Json → Fields
  | .obj fields => fields
  | _ => []

namespace Contract

def documentType : String := "UIFContract"

def schemaVersion : String := "0.4"

def defaultKind : String := "react:component"

def ofDocument (d : Json) : Except ShapeFault Contract :=
  match d with
  | .obj fields =>
    match Fields.getD fields "entryId" with
    | .str entryId =>
      if entryId = "" then .error .missingEntryId
      else
        let renamed (newer older : String) : Json :=
          (Fields.get? fields newer).getD (Fields.getD fields older)
        (Interface.ofFields (renamed "interface" "logicSignature").fieldsOrNone).map
          fun interface => {
            entryId
            description := (Fields.getD fields "description").textOr ""
            composition := .ofFields (renamed "composition" "version").fieldsOrNone
            interface
            exports := .ofValue (Fields.getD fields "exports")
            semanticHash := (Fields.getD fields "semanticHash").textOr ""
            fileHash := (Fields.getD fields "fileHash").textOr ""
            usedIn := (Fields.getD fields "usedIn").itemTexts
            kind := (Fields.getD fields "kind").textOr defaultKind
            source := d }
    | _ => .error .missingEntryId
  | v => .error (.notContract v.shape)

/-- The contract written in the newer spelling. Exports and uses are left out when there are
none. -/
def toDocument (c : Contract) : Json :=
  .record ([
    ("type", .str documentType),
    ("schemaVersion", .str schemaVersion),
    ("kind", .str c.kind),
    ("entryId", .str c.entryId),
    ("description", .str c.description),
    ("composition", c.composition.toValue),
    ("interface", c.interface.toValue),
    ("semanticHash", .str c.semanticHash),
    ("fileHash", .str c.fileHash)] ++
    (match c.exports with
      | .absent => []
      | exports => [("exports", exports.toValue)]) ++
    (match c.usedIn with
      | [] => []
      | usedIn => [("usedIn", .strings usedIn)]))

end Contract

end ContractGraph
