import ContractGraph.CommandLine.Run
import Std.Time.DateTime

/-!
# The program

Runs a command line on files of the working folder, writes the files that changed and ends with the
status of the run. The names of the files that take part come on standard input, one a line, as a
listing of the folder prints them; other files count as missing.
-/

namespace ContractGraph

set_option autoImplicit false

def settingNames : List String := [
  "STAMPGRAPH_DEPTH", "STAMPGRAPH_MAX_NODES", "STAMPGRAPH_PROJECT_ROOT", "STAMPGRAPH_HASH_INDEX",
  "STAMPGRAPH_LOG_LEVEL", "STAMPGRAPH_LOG_FORMAT"]

def readEnvironment : IO (List (String × String)) :=
  settingNames.filterMapM fun name => do return (← IO.getEnv name).map fun value => (name, value)

/-- A number in the given count of decimal digits. -/
def timeField (width : Nat) (n : Int) : String :=
  let digits := (toString n.toNat).toList
  String.ofList (List.replicate (width - digits.length) '0' ++ digits)

/-- A point in time in microseconds, in universal time. -/
def timeText (time : Std.Time.PlainDateTime) : String :=
  let day := [timeField 4 time.year.toInt, timeField 2 time.month.val, timeField 2 time.day.val]
  let clock := [timeField 2 time.hour.val, timeField 2 time.minute.val, timeField 2 time.second.val]
  let micros := time.nanosecond.val / 1000
  let fraction := if micros = 0 then "" else "." ++ timeField 6 micros
  "-".intercalate day ++ "T" ++ ":".intercalate clock ++ fraction ++ "Z"

def currentTime : IO String := do
  let time ← Std.Time.Timestamp.now
  return timeText (.ofWallTime (.ofTimestamp time .zero))

partial def readNames (input : IO.FS.Stream) : IO (List String) := do
  let line ← input.getLine
  if line.isEmpty then return []
  return String.ofList (line.toList.filter (· != '\n')) :: (← readNames input)

def readListed (t : FileTree) (name : String) : IO FileTree := do
  return (t.plant (.ofText name) (.file (← IO.FS.readBinFile name))).1

/-- Writes the files that are new or have new content. -/
def writeChanges (old new : FileTree) : IO Unit :=
  new.nodes.entries.forM fun (names, node) =>
    match node with
    | .file content =>
      if old.nodes.get? names = some node then return
      else IO.FS.writeBinFile ("/".intercalate names) content
    | .folder => return

end ContractGraph

open ContractGraph in
def main (args : List String) : IO UInt32 := do
  let t ← (← readNames (← IO.getStdin)).foldlM readListed .empty
  let time ← currentTime
  let f := CommandLine.run time time (← readEnvironment) t args
  writeChanges t f.tree
  IO.print f.out
  IO.eprint f.err
  if let some fault := f.fault then IO.eprintln fault.message
  return f.status.toUInt32
