import ContractGraph.Text.Pieces

/-!
# Package names

A specifier names a package when it reads `name`, `name/path`, `@scope/name` or
`@scope/name/path`, where a name and a scope start with a lower-case letter, a digit or a tilde and
go on with those, dots, underscores and dashes. A path runs to the end of the line, one newline may
end the specifier, and a specifier with a colon is no package. So relative, absolute and
protocol-style specifiers and capitalised component names are not packages.
-/

namespace ContractGraph.PackageName

set_option autoImplicit false

def isNameStart (c : Char) : Bool :=
  ('a' ≤ c && c ≤ 'z') || ('0' ≤ c && c ≤ '9') || c == '~'

def isNameChar (c : Char) : Bool := isNameStart c || c == '.' || c == '_' || c == '-'

/-- What follows a name at the front of the text. -/
def afterName : List Char → Option (List Char)
  | [] => none
  | c :: cs => if isNameStart c then some (cs.dropWhile isNameChar) else none

/-- What follows the scope, or the whole text when it has none. -/
def afterScope : List Char → Option (List Char)
  | '@' :: cs =>
    match afterName cs with
    | some ('/' :: rest) => some rest
    | _ => none
  | cs => some cs

/-- Whether a text may follow the name: nothing or a path, and then perhaps a newline. -/
def isPathTail (cs : List Char) : Bool :=
  match (Text.splitFinalNewline cs).1 with
  | [] => true
  | '/' :: path => !path.contains '\n'
  | _ => false

def isSpecifierChars (cs : List Char) : Bool :=
  !cs.contains ':' &&
    match (afterScope cs).bind afterName with
    | some rest => isPathTail rest
    | none => false

/-- Whether a specifier names a package. -/
def isSpecifier (s : String) : Bool := isSpecifierChars s.toList

/-- The first piece of a specifier between slashes, the first two for a scoped one. -/
def namePieces (cs : List Char) : Option (List Char) :=
  match cs, Text.splitAt '/' cs with
  | '@' :: _, scope :: name :: _ => if name = [] then none else some (scope ++ '/' :: name)
  | '@' :: _, _ => none
  | _, name :: _ => some name
  | _, [] => none

/-- The name of the package that a specifier imports from. -/
def ofSpecifier? (s : String) : Option String :=
  if isSpecifier s then (namePieces s.toList).map String.ofList else none

example : ofSpecifier? "@scope/pkg/sub" = some "@scope/pkg" ∧ ofSpecifier? "pkg/a/b" = some "pkg" ∧
    ofSpecifier? "Button" = none ∧ ofSpecifier? "node:fs" = none ∧ ofSpecifier? "@scope" = none ∧
    ofSpecifier? "./x" = none ∧ ofSpecifier? "" = none := by decide

end ContractGraph.PackageName
