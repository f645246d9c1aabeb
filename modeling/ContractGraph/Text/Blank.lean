import ContractGraph.Text.Ranges

/-!
# Blank characters

The layout characters of ASCII and its four separators, the next-line control, and the space,
line and paragraph separators of Unicode.
-/

namespace ContractGraph.Text

set_option autoImplicit false

def blankRanges : List (Nat × Nat) :=
  [(9, 13), (28, 32), (133, 133), (160, 160), (5760, 5760), (8192, 8202), (8232, 8233),
   (8239, 8239), (8287, 8287), (12288, 12288)]

def isBlank (c : Char) : Bool := inRanges blankRanges c.toNat

end ContractGraph.Text
