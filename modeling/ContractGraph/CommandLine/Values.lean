import ContractGraph.CommandLine.Words
import ContractGraph.Fault
import ContractGraph.Text.Digit

/-!
# Values of options and arguments

The values of a parsed command line are checked one after the other: those of the options that
were given, in the order in which they first appear, then the arguments, and then the defaults of
the other options. Of an option that was given more than once the last value counts. Arguments
that are left over are refused at the end.
-/

namespace ContractGraph.CommandLine

set_option autoImplicit false

structure CommandSpec where
  name : String
  summary : String
  arguments : List ArgumentSpec
  options : List OptionSpec
  deriving DecidableEq

/-- Why a command does not start: it was not asked for properly, or asking for a file failed. -/
inductive Refusal where
  | usage (fault : UsageFault)
  | failure (fault : Fault)
  deriving DecidableEq

/-- The values that a command starts with, defaults among them. -/
structure Values where
  given : List Given := []
  arguments : List String := []
  deriving DecidableEq

namespace Values

/-- The last value of an option, for a switch the name by which it was given. -/
def last? (v : Values) (long : String) : Option String :=
  (v.given.reverse.find? fun g => g.option = long).map (·.value)

def isOn (v : Values) (long : String) : Bool := (v.last? long).isSome

/-- Whether a toggle was last given by its own name. -/
def toggled (v : Values) (long : String) (default : Bool) : Bool :=
  ((v.last? long).map fun name => decide (name = long)).getD default

def text (v : Values) (long : String) : String := (v.last? long).getD ""

def integer (v : Values) (long : String) : Int := (Text.readInt (v.text long)).getD 0

def argument (v : Values) (place : Nat) : String := v.arguments[place]?.getD ""

end Values

def checkPath (t : FileTree) (names : List String) (kind : PathKind) (path : String) :
    Except Refusal Unit :=
  match t.findText path, kind with
  | .error .nulInPath, _ => .error (.failure .nulInPath)
  | .error (.system _), .folder => .ok ()
  | .error (.system _), kind => .error (.usage (.badValue names (.absent kind path)))
  | .ok (.file _), .folder => .error (.usage (.badValue names (.isFile .folder path)))
  | .ok .folder, .existingFile => .error (.usage (.badValue names (.isFolder .existingFile path)))
  | .ok _, _ => .ok ()

def checkInteger (names : List String) (least : Int) (text : String) : Except Refusal Unit :=
  match Text.readInt text with
  | none => .error (.usage (.badValue names (.notInteger text)))
  | some value =>
    if value < least then .error (.usage (.badValue names (.tooSmall value least))) else .ok ()

def checkValue (t : FileTree) (names : List String) (kind : ValueKind) (text : String) :
    Except Refusal Unit :=
  match kind with
  | .text => .ok ()
  | .path kind => checkPath t names kind text
  | .integer least => checkInteger names least text

def checkOption (t : FileTree) (v : Values) (o : OptionSpec) : Except Refusal Unit :=
  match o.form, v.last? o.long with
  | .valued kind _, some text => checkValue t o.names kind text
  | _, _ => .ok ()

def checkArguments (t : FileTree) : List ArgumentSpec → List String → Except Refusal Unit
  | [], _ => .ok ()
  | a :: _, [] => .error (.usage (.noArgument a.label))
  | a :: as, word :: words => do
    checkValue t [a.label] a.kind word
    checkArguments t as words

def Parsed.isGiven (p : Parsed) (o : OptionSpec) : Bool := p.given.any fun g => g.option = o.long

/-- The given options, by their first appearance. -/
def Parsed.givenOptions (p : Parsed) (options : List OptionSpec) : List OptionSpec :=
  (p.given.map (·.option)).eraseDups.filterMap fun long => options.find? fun o => o.long = long

def defaultOf (o : OptionSpec) : Option Given :=
  match o.form with
  | .valued _ (some text) => some ⟨o.long, text⟩
  | _ => none

/-- The values of a command line that fits the command and the files. -/
def valuesOf (t : FileTree) (spec : CommandSpec) (p : Parsed) : Except Refusal Values := do
  let others := spec.options.filter fun o => !p.isGiven o
  let v : Values := ⟨others.filterMap defaultOf ++ p.given, p.arguments⟩
  (p.givenOptions spec.options).forM (checkOption t v)
  checkArguments t spec.arguments p.arguments
  others.forM (checkOption t v)
  match p.arguments.drop spec.arguments.length with
  | [] => return v
  | extra => .error (.usage (.extraArguments extra))

end ContractGraph.CommandLine
