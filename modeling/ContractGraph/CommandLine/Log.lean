import ContractGraph.Fault
import ContractGraph.Json.Display
import ContractGraph.Json.Printer
import ContractGraph.Text.LowerCase
import ContractGraph.Text.Padded
import ContractGraph.Text.Sorted

/-!
# Log lines

Events from a threshold on are written as lines, either for people or as JSON. The threshold is a
named level. A line for people has the level and the event in columns, the logger, and the fields
by name; a line of JSON has the fields in their own order, then the event, its level, its logger
and a time.
-/

namespace ContractGraph.CommandLine

set_option autoImplicit false

structure LogSettings where
  threshold : Nat := 30
  asJson : Bool := false
  deriving DecidableEq

/-- The severity of each level name; a level that is not set stands for warnings. -/
def levelNames : List (String × Nat) := [
  ("CRITICAL", 50), ("FATAL", 50), ("ERROR", 40), ("WARN", 30), ("WARNING", 30), ("INFO", 20),
  ("DEBUG", 10), ("NOTSET", 30)]

/-- The capital of a letter, as far as the level names need it: ASCII letters and the two other
letters whose capitals are ASCII. -/
def capital (c : Char) : Char :=
  if c = 'ı' then 'I' else if c = 'ſ' then 'S' else c.toUpper

def severityOf? (name : String) : Option Nat :=
  levelNames.lookup (String.ofList (name.toList.map capital))

def LogSettings.ofEnvironment (verbose : Bool) (environment : List (String × String)) :
    Except Fault LogSettings :=
  let named := (environment.lookup "STAMPGRAPH_LOG_LEVEL").getD "WARNING"
  let level := if verbose then "DEBUG" else named
  let format := (environment.lookup "STAMPGRAPH_LOG_FORMAT").getD "console"
  match severityOf? level with
  | some threshold => .ok ⟨threshold, Text.lower format == "json"⟩
  | none => .error (.unknownLevel level)

def needsQuotes (c : Char) : Bool := " \t=\r\n\"'".toList.contains c

/-- A field value on a line for people. -/
def fieldText : Json → String
  | .str s => if s.toList.any needsQuotes then Text.quoted s else s
  | v => v.display

def consoleLine (e : Event) : String :=
  let fields := Text.sortedOn (·.1) e.fields
  s!"[{Text.padded 9 e.level.word}] {Text.padded 30 e.name} [{e.origin}]" ++
    String.join (fields.map fun f => s!" {f.1}={fieldText f.2}")

/-- A line of JSON at the given time. -/
def jsonLine (now : String) (e : Event) : String :=
  (Json.record (e.fields ++ [
    ("event", .str e.name), ("level", .str e.level.word), ("logger", .str e.origin),
    ("timestamp", .str now)])).oneLine

/-- The lines of the events that reach the threshold. -/
def LogSettings.lines (s : LogSettings) (now : String) (events : List Event) : List String :=
  (events.filter fun e => s.threshold ≤ e.level.severity).map fun e =>
    if s.asJson then jsonLine now e else consoleLine e

end ContractGraph.CommandLine
