import ContractGraph.CommandLine.Option
import ContractGraph.Text.Pieces

/-!
# Words of a command line

A word that starts with a dash and is longer than that gives options; two dashes alone end the
options, and every other word is an argument. A long option has its value behind an equals sign or
in the next word. Short options may share one dash, and the value of a short option is the rest of
the word or else the next word, whatever that starts with.

Options and arguments may be mixed, or the first argument ends the options.
-/

namespace ContractGraph.CommandLine

set_option autoImplicit false

/-- An option that was given, with its value or else the name by which it was given. -/
structure Given where
  option : String
  value : String
  deriving DecidableEq

/-- The options and arguments of a command line, in order. -/
structure Parsed where
  given : List Given := []
  arguments : List String := []
  deriving DecidableEq

/-- What one word gives, and the option that takes the next word with the name it was given by. -/
structure WordReading where
  given : List Given := []
  pending : Option (OptionSpec × String) := none
  deriving DecidableEq

def isOptionWord (word : String) : Bool :=
  match word.toList with
  | '-' :: _ :: _ => true
  | _ => false

/-- A long option with the text behind its equals sign. -/
def readLong (options : List OptionSpec) (name : String) (value : Option String) :
    Except UsageFault WordReading :=
  match options.find? (·.longNames.contains name) with
  | none => .error (.noSuchOption name (Text.closeWords name (options.flatMap (·.longNames))))
  | some o =>
    match o.form, value with
    | .valued .., some value => .ok { given := [⟨o.long, value⟩] }
    | .valued .., none => .ok { pending := some (o, name) }
    | _, some _ => .error (.unwantedValue name)
    | _, none => .ok { given := [⟨o.long, name⟩] }

/-- Short options behind one dash. -/
def readShort (options : List OptionSpec) : List Char → Except UsageFault WordReading
  | [] => .ok {}
  | c :: cs =>
    let name := String.ofList ['-', c]
    match options.find? (·.short == some c) with
    | none => .error (.noSuchOption name [])
    | some o =>
      match o.form with
      | .valued .. =>
        if cs = [] then .ok { pending := some (o, name) }
        else .ok { given := [⟨o.long, String.ofList cs⟩] }
      | _ => (readShort options cs).map fun r => { r with given := ⟨o.long, name⟩ :: r.given }

def readWord (options : List OptionSpec) (word : String) : Except UsageFault WordReading :=
  match word.toList with
  | '-' :: '-' :: _ =>
    match Text.breakOn ['='] word.toList with
    | some (name, value) => readLong options (String.ofList name) (some (String.ofList value))
    | none => readLong options word none
  | cs => readShort options (cs.drop 1)

def Parsed.addGiven (given : List Given) (p : Parsed) : Parsed := { p with given := given ++ p.given }

def Parsed.addArgument (word : String) (p : Parsed) : Parsed :=
  { p with arguments := word :: p.arguments }

/-- Reads the words with the options of a command. -/
def parse (options : List OptionSpec) (mixed : Bool) : List String → Except UsageFault Parsed
  | [] => .ok {}
  | word :: rest =>
    if word = "--" then .ok { arguments := rest }
    else if isOptionWord word then
      match readWord options word, rest with
      | .error e, _ => .error e
      | .ok ⟨given, none⟩, rest => (parse options mixed rest).map (·.addGiven given)
      | .ok ⟨_, some (_, name)⟩, [] => .error (.noValue name)
      | .ok ⟨given, some (o, _)⟩, value :: rest =>
        (parse options mixed rest).map (·.addGiven (given ++ [⟨o.long, value⟩]))
    else if mixed then (parse options mixed rest).map (·.addArgument word)
    else .ok { arguments := word :: rest }

end ContractGraph.CommandLine
