import ContractGraph.Text.Sorted

/-!
# Similar words

How alike two words are: the longest block that both hold is matched first, the earliest one of
several, and then the words are matched in the same way on both sides of it. The share of matched
characters in both words is their likeness, and from three fifths on they are close.
-/

namespace ContractGraph.Text

set_option autoImplicit false

/-- The length of the common beginning. -/
def commonLength : List Char → List Char → Nat
  | a :: as, b :: bs => if a = b then commonLength as bs + 1 else 0
  | _, _ => 0

/-- A block that stands at one place in each of two words. -/
structure SharedBlock where
  left : Nat
  right : Nat
  size : Nat

/-- The ends of a word, each with the place where it starts. -/
def endsFrom (place : Nat) : List Char → List (Nat × List Char)
  | [] => []
  | c :: cs => (place, c :: cs) :: endsFrom (place + 1) cs

def sharedBlocks (a b : List Char) : List SharedBlock :=
  (endsFrom 0 a).flatMap fun (i, as) => (endsFrom 0 b).map fun (j, bs) =>
    ⟨i, j, commonLength as bs⟩

def longestBlock (a b : List Char) : SharedBlock :=
  (sharedBlocks a b).foldl (fun best block => if best.size < block.size then block else best)
    ⟨0, 0, 0⟩

/-- How many characters are matched. -/
def matchedSize (a b : List Char) : Nat :=
  match longestBlock a b with
  | ⟨left, right, size⟩ =>
    if 0 < size ∧ left < a.length then
      matchedSize (a.take left) (b.take right) + size +
        matchedSize (a.drop (left + size)) (b.drop (right + size))
    else 0
termination_by a.length
decreasing_by all_goals (simp; omega)

/-- A word with the size of what it shares with another one. -/
structure Likeness where
  word : String
  matched : Nat
  total : Nat

def likeness (sought word : String) : Likeness :=
  ⟨word, matchedSize word.toList sought.toList, word.length + sought.length⟩

def Likeness.isClose (l : Likeness) : Bool := 3 * l.total ≤ 10 * l.matched

/-- Order by likeness and then by word, the greatest first. -/
def Likeness.before (a b : Likeness) : Bool :=
  if a.matched * b.total = b.matched * a.total then atMost b.word a.word
  else decide (b.matched * a.total ≤ a.matched * b.total)

/-- The three words at most that are closest to the sought one. -/
def closeWords (sought : String) (words : List String) : List String :=
  let close := (words.map (likeness sought)).filter Likeness.isClose
  ((close.mergeSort Likeness.before).take 3).map (·.word)

example : closeWords "--dept" ["--help", "--depth", "--strict"] = ["--depth", "--help"] := by cbv

end ContractGraph.Text
