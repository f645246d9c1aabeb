import ContractGraph.Text.Blank

/-!
# Whole numbers in text

Reading a whole number from free text: blanks around it are dropped, a sign may stand in front,
digits of every decimal script count, and single underscores may separate digits.

Blanks here are the ASCII layout characters and the blanks above ASCII: the four ASCII
separators from 28 to 31 are not dropped.
-/

namespace ContractGraph.Text

set_option autoImplicit false

/-- The zeros of the decimal scripts of Unicode 14; the nine code points after each zero are the
other digits of its script. -/
def scriptZeros : List Nat := [
    48, 1632, 1776, 1984, 2406, 2534, 2662, 2790, 2918, 3046, 3174, 3302, 3430, 3558, 3664, 3792,
    3872, 4160, 4240, 6112, 6160, 6470, 6608, 6784, 6800, 6992, 7088, 7232, 7248, 42528, 43216,
    43264, 43472, 43504, 43600, 44016, 65296, 66720, 68912, 69734, 69872, 69942, 70096, 70384,
    70736, 70864, 71248, 71360, 71472, 71904, 72016, 72784, 73040, 73120, 92768, 92864, 93008,
    120782, 120792, 120802, 120812, 120822, 123200, 123632, 125264, 130032]

def digitValue? (c : Char) : Option Nat :=
  (scriptZeros.find? fun z => decide (z ≤ c.toNat) && decide (c.toNat ≤ z + 9)).map (c.toNat - ·)

/-- A text of more digits is not read as a number. -/
def maxDigits : Nat := 4300

private def isNumberMargin (c : Char) : Bool :=
  if c.toNat < 128 then c == ' ' || (9 ≤ c.toNat && c.toNat ≤ 13) else isBlank c

/-- Digits with single underscores between them, most significant first. -/
def digitsBetweenUnderscores : List Char → Option (List Nat)
  | [] => none
  | [c] => (digitValue? c).map ([·])
  | c :: '_' :: rest => do
    let d ← digitValue? c
    let ds ← digitsBetweenUnderscores rest
    return d :: ds
  | c :: rest => do
    let d ← digitValue? c
    let ds ← digitsBetweenUnderscores rest
    return d :: ds

def readNatural (cs : List Char) : Option Nat := do
  let digits ← digitsBetweenUnderscores cs
  if digits.length ≤ maxDigits then some (digits.foldl (fun n d => 10 * n + d) 0) else none

/-- The whole number that a text writes. -/
def readInt (s : String) : Option Int :=
  let trimmed := ((s.toList.dropWhile isNumberMargin).reverse.dropWhile isNumberMargin).reverse
  match trimmed with
  | '-' :: cs => (readNatural cs).map fun n => -(n : Int)
  | '+' :: cs => (readNatural cs).map fun n => (n : Int)
  | cs => (readNatural cs).map fun n => (n : Int)

example : readInt " -1_0\n" = some (-10) ∧ readInt "_1" = none ∧ readInt "1__0" = none ∧
    readInt "+" = none := by decide

end ContractGraph.Text
