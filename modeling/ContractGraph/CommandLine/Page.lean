import ContractGraph.CommandLine.Values
import ContractGraph.Text.Padded
import ContractGraph.Text.Wrapped

/-!
# Help pages

A page has the usage, a summary, and two columns for each list: names on the left, as wide as the
longest of them, and on the right what they mean, wrapped to the width of the page.
-/

namespace ContractGraph.CommandLine

set_option autoImplicit false

def programName : String := "stamp-graph"

def pageWidth : Nat := 80

/-- A row of a list: a name and what it means. -/
structure Row where
  name : String
  meaning : String

namespace Row

/-- The lines of a row whose names column has the given width. -/
def lines (column : Nat) (r : Row) : List String :=
  match (Text.wrapped (pageWidth - column - 4) r.meaning.toList).map String.ofList with
  | [] => ["  " ++ r.name]
  | first :: rest =>
    ("  " ++ Text.padded (column + 2) r.name ++ first) :: rest.map (Text.spaces (column + 4) ++ ·)

end Row

/-- A list under a title. -/
def sectionLines (title : String) (rows : List Row) : List String :=
  let column := (rows.map (·.name.length)).foldl max 0
  ["", title ++ ":"] ++ rows.flatMap (Row.lines column)

namespace OptionSpec

def heading (o : OptionSpec) : String :=
  match o.form with
  | .switch => ", ".intercalate o.names
  | .toggle opposite => ", ".intercalate o.names ++ " / " ++ opposite
  | .valued kind _ => ", ".intercalate o.names ++ " " ++ kind.placeholder

/-- The description; a number shows its default and its range as well. -/
def meaning (o : OptionSpec) : String :=
  match o.form with
  | .valued (.integer least) (some text) =>
    s!"{o.description}  [default: {text}; {rangeText least}]"
  | _ => o.description

def row (o : OptionSpec) : Row := ⟨o.heading, o.meaning⟩

end OptionSpec

namespace CommandSpec

def usage (c : CommandSpec) : String :=
  " ".intercalate (["Usage:", programName, c.name, "[OPTIONS]"] ++ c.arguments.map (·.label))

def page (c : CommandSpec) : List String :=
  [c.usage, "", "  " ++ c.summary] ++
    sectionLines "Options" ((c.options ++ [OptionSpec.help]).map OptionSpec.row)

end CommandSpec

/-- How much of a summary a list of commands shows. -/
def summaryLimit (names : List String) : Nat := pageWidth - 6 - (names.map String.length).foldl max 0

/-- A summary, or as many words of it as fit with three dots behind them. -/
def shortened (limit : Nat) (summary : String) : String :=
  if summary.length ≤ limit then summary
  else
    let words := Text.splitAt ' ' summary.toList
    let shown (count : Nat) : List Char := Text.join ' ' (words.take count) ++ "...".toList
    let fits (count : Nat) : Bool := (shown count).length ≤ limit
    String.ofList (shown (((List.range words.length).reverse.find? fits).getD 0))

/-- What the program as a whole takes. -/
structure ProgramSpec where
  summary : String
  options : List OptionSpec
  commands : List CommandSpec

namespace ProgramSpec

def usage : String := s!"Usage: {programName} [OPTIONS] COMMAND [ARGS]..."

def page (p : ProgramSpec) : List String :=
  let limit := summaryLimit (p.commands.map (·.name))
  let commands := Text.sortedOn (·.name) p.commands
  [usage, "", "  " ++ p.summary] ++
    sectionLines "Options" ((p.options ++ [OptionSpec.help]).map OptionSpec.row) ++
    sectionLines "Commands" (commands.map fun c => ⟨c.name, shortened limit c.summary⟩)

end ProgramSpec

/-- Whether a fault is told together with the usage. An option without the value that it needs, or
with one that it does not take, is told alone. -/
def UsageFault.showsUsage : UsageFault → Bool
  | .noValue _ => false
  | .unwantedValue _ => false
  | _ => true

/-- The lines about a usage fault: the usage, where to find help, and what is wrong. -/
def faultLines (usage name : String) (fault : UsageFault) : List String :=
  (if fault.showsUsage then [usage, s!"Try '{name} --help' for help.", ""] else []) ++
    [s!"Error: {fault.message}"]

end ContractGraph.CommandLine
