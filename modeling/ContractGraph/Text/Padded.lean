/-!
# Padded text

Text filled up with blanks to the width of a column.
-/

namespace ContractGraph.Text

set_option autoImplicit false

def spaces (n : Nat) : String := String.ofList (List.replicate n ' ')

/-- A text with blanks behind it up to a width; a longer text stays as it is. -/
def padded (width : Nat) (s : String) : String := s ++ spaces (width - s.length)

end ContractGraph.Text
