import ContractGraph.Event
import ContractGraph.Files.Tree
import ContractGraph.Json.Reader
import ContractGraph.Json.Reading

/-!
# Faults and logged outcomes

Every failure is a cause; the words for it are in `Fault.message`. The reported faults are the ones
that the program has words of its own for: an entry that is not found, a contract that is missing,
and documents and manifests that cannot be read or written. The others mean that a value of an
unexpected shape or a file of an unexpected kind was met on the way.

The outcome of an operation carries the events that were logged, also before a failure.
-/

namespace ContractGraph

set_option autoImplicit false

inductive DocumentFault where
  | notFound (path : String)
  | invalidJson (path : String) (fault : Json.TextFault)
  | unreadable (path : String) (error : SystemError)
  | invalidContract (path : String) (cause : ShapeFault)
  | notBundles (path : String)
  | notIndex (path : String) (found : String)
  | noFolders (path : String)
  deriving DecidableEq

inductive ManifestFault where
  | unreadable (path : String) (error : SystemError)
  | invalidJson (path : String) (fault : Json.TextFault)
  | notObject (path : String)
  | malformed (path : String) (cause : ShapeFault)
  deriving DecidableEq

inductive Fault where
  | componentNotFound (entryId : String) (known : List String)
  | missingContract (entryId : String)
  | document (fault : DocumentFault)
  | manifestRead (fault : ManifestFault)
  | manifestWrite (path : String) (error : SystemError)
  | shape (fault : ShapeFault)
  | negativeDepth (depth : Bound)
  | noRoom (maxNodes : Bound)
  | notUtf8
  | excess (excess : Json.Excess)
  | nulInPath
  | foldersTooDeep
  | unknownLevel (name : String)
  | system (error : SystemError)
  deriving DecidableEq

def indexType : String := "LogicStampIndex"

def DocumentFault.message : DocumentFault → String
  | .notFound path => s!"File not found: {path}"
  | .invalidJson path fault => s!"Invalid JSON in {path}: {fault.message}"
  | .unreadable path error => s!"Cannot read {path}: {error.message path}"
  | .invalidContract path cause => s!"Invalid contract in {path}: {cause.message}"
  | .notBundles path => s!"Expected an array of bundles in {path}"
  | .notIndex path found =>
    s!"Invalid index file {path}: expected type '{indexType}', got '{found}'"
  | .noFolders path => s!"Invalid index file {path}: 'folders' must be an array"

def ManifestFault.message : ManifestFault → String
  | .unreadable path error => s!"Failed to load manifest at {path}: {error.message path}"
  | .invalidJson path fault => s!"Failed to load manifest at {path}: {fault.message}"
  | .notObject path => s!"Failed to load manifest at {path}: not a JSON object"
  | .malformed path cause => s!"Malformed manifest at {path}: {cause.message}"

/-- How many known keys the message about an entry lists. -/
def suggestionLimit : Nat := 5

def notFoundMessage (entryId : String) (known : List String) : String :=
  let listed := known.take suggestionLimit
  let heading := s!"Component not found: {entryId}"
  if listed.isEmpty then heading
  else
    let lines := listed.map fun key => s!"  - {key}"
    let more := known.length - listed.length
    let tail := if more = 0 then "" else s!"\n  ... and {more} more"
    heading ++ "\nAvailable components:\n" ++ "\n".intercalate lines ++ tail

def manifestWriteMessage (path : String) (error : SystemError) : String :=
  if error.number = SystemError.notFound.number then
    s!"Parent directory not found for: \"{path}\""
  else if error.number = SystemError.accessDenied.number then
    s!"Permission denied writing to: \"{path}\""
  else if error.number = SystemError.noSpace.number then
    s!"No space left on device. Cannot write: \"{path}\""
  else s!"Failed to write manifest \"{path}\": {error.description}"

namespace Fault

def ofAccess : AccessFault → Fault
  | .system e => .system e
  | .nulInPath => .nulInPath

/-- Whether the program has words of its own for the failure. -/
def isReported : Fault → Bool
  | .componentNotFound .. => true
  | .missingContract .. => true
  | .document .. => true
  | .manifestRead .. => true
  | .manifestWrite .. => true
  | _ => false

def message : Fault → String
  | .componentNotFound entryId known => notFoundMessage entryId known
  | .missingContract entryId => s!"Missing contract for {entryId}"
  | .document fault => fault.message
  | .manifestRead fault => fault.message
  | .manifestWrite path error => manifestWriteMessage path error
  | .shape fault => fault.message
  | .negativeDepth depth => s!"max_depth must be >= 0, got {depth.text}"
  | .noRoom maxNodes => s!"max_nodes must be >= 1, got {maxNodes.text}"
  | .notUtf8 => "the file is not UTF-8 text"
  | .excess e => e.message
  | .nulInPath => "embedded null byte"
  | .foldersTooDeep => s!"folders nested deeper than {maxWalkNesting} levels"
  | .unknownLevel name => s!"Unknown level: {Text.quoted name}"
  | .system error => error.description

end Fault

instance : MonadLift (Except ShapeFault) (Except Fault) where
  monadLift x := x.mapError .shape

/-- An outcome with the events that were logged on the way to it. -/
structure Logged (α : Type) where
  events : List Event
  outcome : Except Fault α

namespace Logged

variable {α β : Type}

def pure (a : α) : Logged α := ⟨[], .ok a⟩

def bind (x : Logged α) (f : α → Logged β) : Logged β :=
  match x.outcome with
  | .ok a => ⟨x.events ++ (f a).events, (f a).outcome⟩
  | .error e => ⟨x.events, .error e⟩

instance : Monad Logged where
  pure := pure
  bind := bind

def fail (e : Fault) : Logged α := ⟨[], .error e⟩

def emit (e : Event) : Logged Unit := ⟨[e], .ok ()⟩

instance : MonadLift (Except Fault) Logged where
  monadLift x := ⟨[], x⟩

instance : MonadLift (Except ShapeFault) Logged where
  monadLift x := ⟨[], x.mapError .shape⟩

@[simp] theorem outcome_pure (a : α) : (Pure.pure a : Logged α).outcome = .ok a := rfl

@[simp] theorem outcome_bind (x : Logged α) (f : α → Logged β) :
    (x >>= f).outcome = x.outcome.bind fun a => (f a).outcome := by
  rcases x with ⟨events, outcome⟩
  cases outcome <;> rfl

@[simp] theorem outcome_emit (e : Event) : (emit e).outcome = .ok () := rfl

end Logged

end ContractGraph
