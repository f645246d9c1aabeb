/-!
# Control sequences

A control sequence steers a terminal. It is an escape character and an opening bracket, then
parameters from `0` to `?`, then characters from the blank to `/`, and a final one from `@` to `~`.
What is not shown on a terminal is written without its control sequences. Taking them out may bring
a new one together, which stays.
-/

namespace ContractGraph.Text

set_option autoImplicit false

def isParameter (c : Char) : Bool := '0' ≤ c && c ≤ '?'

def isIntermediate (c : Char) : Bool := ' ' ≤ c && c ≤ '/'

def isFinal (c : Char) : Bool := '@' ≤ c && c ≤ '~'

/-- What follows a control sequence whose bracket has been taken. -/
def afterSequence? (cs : List Char) : Option (List Char) :=
  match (cs.dropWhile isParameter).dropWhile isIntermediate with
  | c :: rest => if isFinal c then some rest else none
  | [] => none

theorem after_sequence_shorter {cs rest : List Char} (h : afterSequence? cs = some rest) :
    rest.length < cs.length := by
  have first := (List.dropWhile_sublist (p := isParameter) (l := cs)).length_le
  have second := (List.dropWhile_sublist (p := isIntermediate)
    (l := cs.dropWhile isParameter)).length_le
  unfold afterSequence? at h
  split at h
  · next c tail left =>
    split at h
    · rw [left, List.length_cons] at second
      rw [← Option.some.inj h]
      omega
    · contradiction
  · contradiction

def dropSequences : List Char → List Char
  | '\x1b' :: '[' :: cs =>
    match h : afterSequence? cs with
    | some rest =>
      have := after_sequence_shorter h
      dropSequences rest
    | none => '\x1b' :: dropSequences ('[' :: cs)
  | c :: cs => c :: dropSequences cs
  | [] => []
  termination_by cs => cs.length

/-- A text without its control sequences. -/
def plain (s : String) : String := String.ofList (dropSequences s.toList)

example : plain "a\x1b[31mb\x1b[0m" = "ab" ∧ plain "\x1b[\n\x1bM" = "\x1b[\n\x1bM" := by
  decide +kernel

end ContractGraph.Text
