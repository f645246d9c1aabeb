/-!
# Wrapped text

Text broken into lines of a given width. A line ends before the first word that would not fit, and
the blanks at a break are dropped. A word that is wider than a line is cut where the line is full.
-/

namespace ContractGraph.Text

set_option autoImplicit false

/-- Pieces of the given width; the last one may be shorter. -/
def cut (width : Nat) (cs : List Char) : List (List Char) :=
  if cs.length ≤ width ∨ width = 0 then [cs]
  else cs.take width :: cut width (cs.drop width)
termination_by cs.length
decreasing_by simp; omega

/-- The finished lines and the one that is being filled. -/
structure Filling where
  lines : List (List Char) := []
  line : List Char := []

namespace Filling

def dropTrailing (cs : List Char) : List Char := (cs.reverse.dropWhile (· == ' ')).reverse

/-- Ends the line, if anything stands on it. -/
def close (f : Filling) : Filling :=
  let line := dropTrailing f.line
  ⟨if line = [] then f.lines else f.lines ++ [line], []⟩

def addBlanks (width : Nat) (f : Filling) (blanks : List Char) : Filling :=
  if f.line = [] ∧ f.lines ≠ [] then f
  else if f.line.length + blanks.length ≤ width then { f with line := f.line ++ blanks }
  else f.close

def addWord (width : Nat) (f : Filling) (word : List Char) : Filling :=
  if f.line.length + word.length ≤ width then { f with line := f.line ++ word }
  else if word.length ≤ width then { f.close with line := word }
  else
    let room := max (width - f.line.length) 1
    let pieces := cut width (word.drop room)
    ⟨f.lines ++ [f.line ++ word.take room] ++ pieces.dropLast, pieces.getLastD []⟩

/-- Adds a run of blanks or a run of other characters. -/
def addRun (width : Nat) (f : Filling) (run : List Char) : Filling :=
  if run.head? = some ' ' then f.addBlanks width run else f.addWord width run

end Filling

/-- The lines of a text. -/
def wrapped (width : Nat) (cs : List Char) : List (List Char) :=
  let runs := cs.splitBy fun a b => (a == ' ') == (b == ' ')
  (runs.foldl (Filling.addRun width) {}).close.lines

example : wrapped 5 "ab  cd efghijklm n".toList =
    ["ab".toList, "cd ef".toList, "ghijk".toList, "lm n".toList] := by cbv

end ContractGraph.Text
