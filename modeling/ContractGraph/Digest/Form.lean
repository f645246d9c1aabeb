import ContractGraph.Digest.Sha256
import ContractGraph.Text.Pieces

/-!
# The form of a hash

A hash is a prefix and the first twenty-four hexadecimal digits of the SHA-256 digest of a text.
The checks look at the form alone: hashes of contracts of any length, of the length computed here,
and hashes of bundles. A single newline may follow the digits.
-/

namespace ContractGraph.Hash

set_option autoImplicit false

def contractPrefix : String := "uif:"

def bundlePrefix : String := "uifb:"

def digestLength : Nat := 24

def digestChars (text : String) : List Char := (Sha256.hex text.toUTF8.toList).take digestLength

theorem digest_chars_length (text : String) : (digestChars text).length = digestLength := by
  simp [digestChars, Sha256.hex_length, digestLength]

/-- The hash of a text under a prefix. -/
def ofText (pre text : String) : String := pre ++ String.ofList (digestChars text)

def isHashDigit (c : Char) : Bool := ('0' ≤ c && c ≤ '9') || ('a' ≤ c && c ≤ 'f')

/-- Whether a text is a prefix and then hash digits whose number is allowed. -/
def hasForm (pre : String) (allowed : Nat → Bool) (s : String) : Bool :=
  match Text.dropPrefix? pre.toList (Text.splitFinalNewline s.toList).1 with
  | some digits => digits.all isHashDigit && allowed digits.length
  | none => false

/-- A hash of a contract, of any length. -/
def isContractHash (s : String) : Bool := hasForm contractPrefix (· != 0) s

/-- A hash of a contract with the number of digits that is computed here. -/
def isFullContractHash (s : String) : Bool := hasForm contractPrefix (· == digestLength) s

def isBundleHash (s : String) : Bool := hasForm bundlePrefix (· == digestLength) s

example : isContractHash "uif:abc1" ∧ ¬ isContractHash "uif:" ∧ ¬ isContractHash "uif:G" ∧
    ¬ isFullContractHash "uif:abc1" ∧ isContractHash "uif:0\n" := by decide

end ContractGraph.Hash
