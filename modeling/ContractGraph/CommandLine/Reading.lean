import ContractGraph.CommandLine.Command
import ContractGraph.CommandLine.Log

/-!
# Reading a command line

The options of the program stand before the name of a command, and the words behind the name are
those of the command. A command line is answered by a help page, refused with the usage, or read as
a command together with its log settings. A mistake in the words comes before a wish for help, and
a wish for help before the checks of values. Log settings are made once the command is known.
-/

namespace ContractGraph.CommandLine

set_option autoImplicit false

inductive Reading where
  | page (lines : List String)
  | refused (lines : List String)
  | failed (fault : Fault)
  | command (log : LogSettings) (command : Command)
  deriving DecidableEq

namespace Reading

def refuseProgram (fault : UsageFault) : Reading :=
  .refused (faultLines ProgramSpec.usage programName fault)

def refuseCommand (c : CommandSpec) (fault : UsageFault) : Reading :=
  .refused (faultLines c.usage s!"{programName} {c.name}" fault)

/-- Reads the words behind the name of a command. -/
def ofCommandWords (s : Settings) (t : FileTree) (log : LogSettings) (name : CommandName)
    (words : List String) : Reading :=
  let spec := name.spec s
  match parse (spec.options ++ [OptionSpec.help]) true words with
  | .error fault => refuseCommand spec fault
  | .ok p =>
    if p.isGiven .help then .page spec.page
    else
      match valuesOf t spec p with
      | .error (.usage fault) => refuseCommand spec fault
      | .error (.failure fault) => .failed fault
      | .ok v => .command log (name.command s v)

def parseProgram (p : ProgramSpec) (words : List String) : Except UsageFault Parsed :=
  parse (p.options ++ [OptionSpec.help]) false words

/-- Answers words that name no command. The first of them may have been put behind two dashes, and
is then taken for an option after all. -/
def ofUnknownCommand (p : ProgramSpec) (word : String) (words : List String) : Reading :=
  match parseProgram p (word :: words) with
  | .error fault => refuseProgram fault
  | .ok parsed =>
    if parsed.isGiven .help then .page p.page
    else
      refuseProgram (.noSuchCommand word (Text.closeWords word (p.commands.map (·.name))))

/-- Reads all words of a command line. -/
def ofWords (environment : List (String × String)) (t : FileTree) (words : List String) : Reading :=
  let s := Settings.ofEnvironment environment
  let p := programSpec s
  if words = [] then .refused p.page
  else
    match parseProgram p words with
    | .error fault => refuseProgram fault
    | .ok parsed =>
      if parsed.isGiven .help then .page p.page
      else
        match parsed.arguments with
        | [] => refuseProgram .noCommand
        | word :: words =>
          match CommandName.ofWord? word with
          | none => ofUnknownCommand p word words
          | some name =>
            match LogSettings.ofEnvironment (parsed.isGiven verboseOption) environment with
            | .error fault => .failed fault
            | .ok log => ofCommandWords s t log name words

end Reading

end ContractGraph.CommandLine
