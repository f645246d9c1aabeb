import ContractGraph.Json.Printer
import ContractGraph.Manifest.Build
import ContractGraph.Package.Versions

/-!
# Manifest files

A manifest is written as indented JSON text under a fixed name in a folder, and is loaded from
such a folder or from a file.
-/

namespace ContractGraph

set_option autoImplicit false

namespace Manifest

def fileName : String := "stampgraph.manifest.json"

/-- Writes a manifest into a folder. The number of its components must not have too many digits to be
written, and a write that is known to fail with an error reports it. -/
def write (m : Manifest) (folder : String) (t : FileTree) (failure : Option SystemError := none) :
    Logged (Location × FileTree) :=
  let path := (Location.ofText folder).child fileName
  if Json.maxDigits < Binary64.decimalLength m.components.size then .fail (.excess .writtenDigits)
  else
    match failure with
    | some e => .fail (.manifestWrite path.text e)
    | none =>
      match t.writeText path m.toDocument.indented with
      | .error (.system e) => .fail (.manifestWrite path.text e)
      | .error .nulInPath => .fail .nulInPath
      | .ok written => do
        Logged.emit (.manifestWritten path.text m.components.size)
        return (path, written)

/-- The manifest file that a location means: the file itself, or the one in the folder. -/
def fileAt (t : FileTree) (l : Location) : Except SystemError Location :=
  (t.isFolder l).map fun folder => if folder then l.child fileName else l

def load (t : FileTree) (path : String) : Except Fault Manifest :=
  match fileAt t (.ofText path) with
  | .error e => .error (.system e)
  | .ok l =>
    match t.readText l with
    | .error (.system e) => .error (.manifestRead (.unreadable l.text e))
    | .error e => .error e
    | .ok text =>
      match Json.read text with
      | .error (.excess e) => .error (.excess e)
      | .error fault => .error (.manifestRead (.invalidJson l.text fault))
      | .ok (.obj fields) =>
        (ofDocument (.obj fields)).mapError fun cause => .manifestRead (.malformed l.text cause)
      | .ok _ => .error (.manifestRead (.notObject l.text))

end Manifest

end ContractGraph
