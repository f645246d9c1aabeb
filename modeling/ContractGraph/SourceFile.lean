import ContractGraph.Digest.Form

/-!
# Source files

The hash of a source file ignores the header block that is generated into it and the style of its
line ends. The header starts at the first comment opening, runs over the first marker after it to
the first comment closing after the marker, and takes the newlines behind it along. A file whose
first comment opening is not followed by a marker and then a closing has no header.
-/

namespace ContractGraph.SourceFile

set_option autoImplicit false

def headerOpening : List Char := "/**".toList

def headerMarker : List Char := "@uif".toList

def headerClosing : List Char := "*/".toList

/-- What stands before the header and what stands after it, its newlines dropped. -/
def splitHeader (cs : List Char) : Option (List Char × List Char) := do
  let (before, opened) ← Text.breakOn headerOpening cs
  let (_, marked) ← Text.breakOn headerMarker opened
  let (_, after) ← Text.breakOn headerClosing marked
  return (before, after.dropWhile (· == '\n'))

def dropHeader (cs : List Char) : List Char :=
  match splitHeader cs with
  | some (before, after) => before ++ after
  | none => cs

/-- Two-character line ends become newlines. -/
def unifyLineEnds : List Char → List Char
  | '\r' :: '\n' :: cs => '\n' :: unifyLineEnds cs
  | c :: cs => c :: unifyLineEnds cs
  | [] => []

/-- The text that the hash of a file is taken of. -/
def hashedText (content : String) : String :=
  String.ofList (unifyLineEnds (dropHeader content.toList))

def hash (content : String) : String := Hash.ofText Hash.contractPrefix (hashedText content)

example : hashedText "/** x @uif y */\n\n/** z */\r\nA" = "/** z */\nA" := by decide

end ContractGraph.SourceFile
