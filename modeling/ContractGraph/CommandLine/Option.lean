import ContractGraph.Text.Quoted
import ContractGraph.Text.Similarity

/-!
# Options and arguments

What a command can be given: options, which have a long name and perhaps a short one, and
arguments, which stand in a fixed order. A value is a text, a path that has to fit the files, or a
whole number with a lower bound. Whatever is wrong with a command line is a usage fault.
-/

namespace ContractGraph.CommandLine

set_option autoImplicit false

/-- What a path may lead to. -/
inductive PathKind where
  | existing
  | existingFile
  | folder
  deriving DecidableEq

inductive ValueKind where
  | text
  | path (kind : PathKind)
  | integer (least : Int)
  deriving DecidableEq

/-- How an option is given: by its name alone, by its name or an opposite one, or with a value. -/
inductive OptionForm where
  | switch
  | toggle (opposite : String)
  | valued (kind : ValueKind) (default : Option String)
  deriving DecidableEq

structure OptionSpec where
  short : Option Char := none
  long : String
  form : OptionForm := .switch
  description : String
  deriving DecidableEq

structure ArgumentSpec where
  label : String
  kind : ValueKind := .text
  deriving DecidableEq

inductive ValueFault where
  | absent (kind : PathKind) (path : String)
  | isFile (kind : PathKind) (path : String)
  | isFolder (kind : PathKind) (path : String)
  | notInteger (text : String)
  | tooSmall (value least : Int)
  deriving DecidableEq

inductive UsageFault where
  | noSuchOption (name : String) (close : List String)
  | noValue (name : String)
  | unwantedValue (name : String)
  | badValue (names : List String) (fault : ValueFault)
  | noArgument (label : String)
  | extraArguments (words : List String)
  | noCommand
  | noSuchCommand (name : String) (close : List String)
  deriving DecidableEq

def PathKind.noun : PathKind → String
  | .existing => "Path"
  | .existingFile => "File"
  | .folder => "Directory"

/-- What stands for a value on a help page. -/
def ValueKind.placeholder : ValueKind → String
  | .text => "TEXT"
  | .path kind => kind.noun.toUpper
  | .integer _ => "INTEGER RANGE"

def rangeText (least : Int) : String := s!"x>={least}"

namespace OptionSpec

def help : OptionSpec := { long := "--help", description := "Show this message and exit." }

def shortName (o : OptionSpec) : Option String := o.short.map fun c => String.ofList ['-', c]

/-- The names that give the option, the opposite one left out. -/
def names (o : OptionSpec) : List String := o.shortName.toList ++ [o.long]

/-- The names that start with two dashes. -/
def longNames (o : OptionSpec) : List String :=
  match o.form with
  | .toggle opposite => [o.long, opposite]
  | _ => [o.long]

end OptionSpec

def ValueFault.message : ValueFault → String
  | .absent kind path => s!"{kind.noun} {Text.quoted path} does not exist."
  | .isFile kind path => s!"{kind.noun} {Text.quoted path} is a file."
  | .isFolder kind path => s!"{kind.noun} {Text.quoted path} is a directory."
  | .notInteger text => s!"{Text.quoted text} is not a valid integer range."
  | .tooSmall value least => s!"{value} is not in the range {rangeText least}."

/-- Quoted words with a separator between two of them. -/
def quotedWords (separator : String) (words : List String) : String :=
  separator.intercalate (words.map Text.quoted)

/-- The words that may have been meant. -/
def suggestion (close : List String) : String :=
  match Text.sorted close with
  | [] => ""
  | [word] => s!" Did you mean {Text.quoted word}?"
  | words => " (Did you mean one of: " ++ quotedWords ", " words ++ "?)"

def UsageFault.message : UsageFault → String
  | .noSuchOption name close => s!"No such option {Text.quoted name}." ++ suggestion close
  | .noValue name => s!"Option {Text.quoted name} requires an argument."
  | .unwantedValue name => s!"Option {Text.quoted name} does not take a value."
  | .badValue names fault =>
    "Invalid value for " ++ quotedWords " / " names ++ ": " ++ fault.message
  | .noArgument label => s!"Missing argument {Text.quoted label}."
  | .extraArguments [word] => s!"Got unexpected extra argument ({word})"
  | .extraArguments words => "Got unexpected extra arguments (" ++ " ".intercalate words ++ ")"
  | .noCommand => "Missing command."
  | .noSuchCommand name close => s!"No such command {Text.quoted name}." ++ suggestion close

end ContractGraph.CommandLine
