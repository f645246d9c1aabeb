import ContractGraph.Json.Basic

/-!
# Reading JSON text

A reader takes characters from the front of a text and gives a value with the rest. Where it stops
it says what it was looking for and how many characters were left there, from which the offset,
line and column follow.

Beyond the standard the three names `NaN`, `Infinity` and `-Infinity` are numbers. A whole number
of more than 4300 digits and a value that is nested deeper than 985 levels are beyond the limits of
the reader. A member that is named twice keeps its first place and its last value.

A text is made of characters, and half of a surrogate pair is none. An escape of such a half that
stands alone is read as the replacement character. So texts that differ in such halves only are not
told apart here, and none of them fails to be written or to be the name of a file.
-/

namespace ContractGraph

set_option autoImplicit false

namespace Json

inductive ReadCause where
  | expectedValue
  | expectedName
  | expectedColon
  | expectedComma
  | extraData
  | unterminatedString
  | controlCharacter
  | unknownEscape
  | incompleteEscape
  | byteOrderMark
  deriving DecidableEq

def ReadCause.message : ReadCause → String
  | .expectedValue => "Expecting value"
  | .expectedName => "Expecting property name enclosed in double quotes"
  | .expectedColon => "Expecting ':' delimiter"
  | .expectedComma => "Expecting ',' delimiter"
  | .extraData => "Extra data"
  | .unterminatedString => "Unterminated string starting at"
  | .controlCharacter => "Invalid control character at"
  | .unknownEscape => "Invalid \\escape"
  | .incompleteEscape => "Invalid \\uXXXX escape"
  | .byteOrderMark => "Unexpected UTF-8 BOM (decode using utf-8-sig)"

/-- What there is too much of: digits of a number that is read or to be written, or levels. -/
inductive Excess where
  | digits (count : Nat)
  | writtenDigits
  | nesting
  deriving DecidableEq

/-- Why reading stopped. -/
inductive Stop where
  | malformed (cause : ReadCause) (left : Nat)
  | excess (excess : Excess)
  deriving DecidableEq

abbrev Reading (α : Type) := Except Stop (α × List Char)

def isLayout (c : Char) : Bool := c == ' ' || c == '\t' || c == '\n' || c == '\r'

def skipLayout (cs : List Char) : List Char := cs.dropWhile isLayout

def hexValue? (c : Char) : Option Nat :=
  if '0' ≤ c ∧ c ≤ '9' then some (c.toNat - 48)
  else if 'a' ≤ c ∧ c ≤ 'f' then some (c.toNat - 87)
  else if 'A' ≤ c ∧ c ≤ 'F' then some (c.toNat - 55)
  else none

def hexQuad? (a b c d : Char) : Option Nat := do
  let a ← hexValue? a
  let b ← hexValue? b
  let c ← hexValue? c
  let d ← hexValue? d
  return ((a * 16 + b) * 16 + c) * 16 + d

def isHighSurrogate (n : Nat) : Bool := 0xd800 ≤ n && n < 0xdc00

def isLowSurrogate (n : Nat) : Bool := 0xdc00 ≤ n && n < 0xe000

/-- The character of one UTF-16 unit. A surrogate that stands alone has none of its own, and no text
can hold it, so it is replaced. -/
def unitChar (n : Nat) : Char :=
  if isHighSurrogate n || isLowSurrogate n then '\ufffd' else Char.ofNat n

def pairChar (high low : Nat) : Char :=
  Char.ofNat (0x10000 + (high - 0xd800) * 0x400 + (low - 0xdc00))

def simpleEscape? : Char → Option Char
  | '"' => some '"'
  | '\\' => some '\\'
  | '/' => some '/'
  | 'b' => some '\x08'
  | 'f' => some '\x0c'
  | 'n' => some '\n'
  | 'r' => some '\r'
  | 't' => some '\t'
  | _ => none

/-- The character after `\\u`. A code point above the basic plane is written as two escaped units,
and an escape is only taken when a character follows it. -/
def readUnitEscape : List Char → Reading Char
  | a :: b :: c :: d :: e :: rest =>
    match hexQuad? a b c d with
    | none => .error (.malformed .incompleteEscape (rest.length + 6))
    | some high =>
      if isHighSurrogate high then
        match e :: rest with
        | '\\' :: 'u' :: a' :: b' :: c' :: d' :: f :: rest' =>
          match hexQuad? a' b' c' d' with
          | none => .error (.malformed .incompleteEscape (rest'.length + 6))
          | some low =>
            if isLowSurrogate low then .ok (pairChar high low, f :: rest')
            else .ok (unitChar high, e :: rest)
        | _ => .ok (unitChar high, e :: rest)
      else .ok (unitChar high, e :: rest)
  | cs => .error (.malformed .incompleteEscape (cs.length + 1))

theorem read_unit_escape_shorter {cs rest : List Char} {c : Char}
    (h : readUnitEscape cs = .ok (c, rest)) : rest.length < cs.length := by
  have ok_rest : ∀ {x : Char} {r : List Char}, (Except.ok (x, r) : Reading Char) = .ok (c, rest) →
      r = rest := fun e => (Prod.mk.inj (Except.ok.inj e)).2
  unfold readUnitEscape at h
  split at h
  · rename_i a b c' d e tail
    have short : (e :: tail).length < (a :: b :: c' :: d :: e :: tail).length := by
      simp only [List.length_cons]
      omega
    split at h
    · contradiction
    · split at h
      · split at h
        · rename_i same
          split at h
          · contradiction
          · split at h
            · have lengths := congrArg List.length same
              rw [← ok_rest h]
              simp only [List.length_cons] at lengths ⊢
              omega
            · exact ok_rest h ▸ short
        · exact ok_rest h ▸ short
      · exact ok_rest h ▸ short
  · contradiction

/-- Why a string could not be read: it has no end, or reading stopped inside. -/
inductive StringFault where
  | unterminated
  | inside (stop : Stop)
  deriving DecidableEq

/-- Puts a character in front of a string that is read. -/
def prepend (c : Char) (r : Except StringFault (List Char × List Char)) :
    Except StringFault (List Char × List Char) :=
  r.map fun p => (c :: p.1, p.2)

/-- The rest of a string after its opening quote. -/
def readStringBody (cs : List Char) : Except StringFault (List Char × List Char) :=
  match cs with
  | [] => .error .unterminated
  | '"' :: rest => .ok ([], rest)
  | '\\' :: [] => .error .unterminated
  | '\\' :: 'u' :: rest =>
    match h : readUnitEscape rest with
    | .error e => .error (.inside e)
    | .ok (c, rest') =>
      have := read_unit_escape_shorter h
      prepend c (readStringBody rest')
  | '\\' :: c :: rest =>
    match simpleEscape? c with
    | none => .error (.inside (.malformed .unknownEscape (rest.length + 2)))
    | some c' => prepend c' (readStringBody rest)
  | c :: rest =>
    if c.toNat < 0x20 then .error (.inside (.malformed .controlCharacter (rest.length + 1)))
    else prepend c (readStringBody rest)
  termination_by cs.length

/-- A string after its opening quote. One that has no end is reported at that quote. -/
def readString (cs : List Char) : Reading (List Char) :=
  match readStringBody cs with
  | .ok p => .ok p
  | .error .unterminated => .error (.malformed .unterminatedString (cs.length + 1))
  | .error (.inside stop) => .error stop

def isDigit (c : Char) : Bool := '0' ≤ c && c ≤ '9'

def digitsValue (ds : List Char) : Nat := ds.foldl (fun n d => 10 * n + (d.toNat - 48)) 0

def maxDigits : Nat := 4300

/-- The digits of a fraction, when a point with a digit after it comes next. -/
def readFraction : List Char → Option (List Char × List Char)
  | '.' :: d :: rest =>
    if isDigit d then some ((d :: rest).takeWhile isDigit, (d :: rest).dropWhile isDigit) else none
  | _ => none

/-- The exponent, when a mark with at least one digit after it comes next. -/
def readExponent : List Char → Option (Int × List Char)
  | e :: rest =>
    if e = 'e' ∨ e = 'E' then
      let (negative, body) := match rest with
        | '-' :: r => (true, r)
        | '+' :: r => (false, r)
        | r => (false, r)
      let ds := body.takeWhile isDigit
      if ds.isEmpty then none
      else
        let n : Int := digitsValue ds
        some (if negative then -n else n, body.dropWhile isDigit)
    else none
  | [] => none

/-- The digits of the whole part: a zero alone, or digits that do not start with one. -/
def readWhole : List Char → Option (List Char × List Char)
  | '0' :: rest => some (['0'], rest)
  | d :: rest =>
    if isDigit d then some ((d :: rest).takeWhile isDigit, (d :: rest).dropWhile isDigit) else none
  | [] => none

/-- A number at the front of the text, of which a whole one may have so many digits. -/
def readNumber (digits : Nat) (cs : List Char) : Reading Json :=
  let (negative, body) := match cs with
    | '-' :: r => (true, r)
    | r => (false, r)
  match readWhole body with
  | none => .error (.malformed .expectedValue cs.length)
  | some (whole, rest) =>
    let fraction := readFraction rest
    let rest := (fraction.map (·.2)).getD rest
    let exponent := readExponent rest
    let rest := (exponent.map (·.2)).getD rest
    if fraction.isNone && exponent.isNone then
      if digits < whole.length then .error (.excess (.digits whole.length))
      else
        let n : Int := digitsValue whole
        .ok (.int (if negative then -n else n), rest)
    else
      let tail := (fraction.map (·.1)).getD []
      let shift : Int := (exponent.map (·.1)).getD 0
      .ok (.float (.ofDecimal negative (digitsValue (whole ++ tail)) (shift - tail.length)), rest)

/-- How many levels of arrays and objects a value may have. -/
def maxNesting : Nat := 985

mutual

/-- A value at the front of the text, whose whole numbers may have so many digits. The second
argument bounds the number of steps. Of two steps one at least takes a character, so twice the length
of the text is enough. The third one is the number of levels that the value may have. -/
def readValue (digits : Nat) : Nat → Nat → List Char → Reading Json
  | 0, _, cs => .error (.malformed .expectedValue cs.length)
  | steps + 1, levels, cs =>
    match cs with
    | '"' :: rest => (readString rest).map fun p => (.str (.ofList p.1), p.2)
    | '[' :: rest =>
      match levels with
      | 0 => .error (.excess .nesting)
      | levels + 1 =>
        match skipLayout rest with
        | ']' :: rest => .ok (.arr [], rest)
        | rest => (readItems digits steps levels rest).map fun p => (.arr p.1, p.2)
    | '{' :: rest =>
      match levels with
      | 0 => .error (.excess .nesting)
      | levels + 1 =>
        match skipLayout rest with
        | '}' :: rest => .ok (.obj [], rest)
        | rest =>
          (readMembers digits steps levels rest).map fun p => (.obj (Fields.ofPairs p.1), p.2)
    | 'n' :: 'u' :: 'l' :: 'l' :: rest => .ok (.null, rest)
    | 't' :: 'r' :: 'u' :: 'e' :: rest => .ok (.bool true, rest)
    | 'f' :: 'a' :: 'l' :: 's' :: 'e' :: rest => .ok (.bool false, rest)
    | 'N' :: 'a' :: 'N' :: rest => .ok (.float .nan, rest)
    | 'I' :: 'n' :: 'f' :: 'i' :: 'n' :: 'i' :: 't' :: 'y' :: rest =>
      .ok (.float (.infinite false), rest)
    | '-' :: 'I' :: 'n' :: 'f' :: 'i' :: 'n' :: 'i' :: 't' :: 'y' :: rest =>
      .ok (.float (.infinite true), rest)
    | cs => readNumber digits cs

/-- One or more items up to the closing bracket. -/
def readItems (digits : Nat) : Nat → Nat → List Char → Reading (List Json)
  | 0, _, cs => .error (.malformed .expectedValue cs.length)
  | steps + 1, levels, cs =>
    match readValue digits steps levels cs with
    | .error e => .error e
    | .ok (v, rest) =>
      match skipLayout rest with
      | ']' :: rest => .ok ([v], rest)
      | ',' :: rest =>
        (readItems digits steps levels (skipLayout rest)).map fun p => (v :: p.1, p.2)
      | rest => .error (.malformed .expectedComma rest.length)

/-- One or more members up to the closing brace. -/
def readMembers (digits : Nat) : Nat → Nat → List Char → Reading (List (Key × Json))
  | 0, _, cs => .error (.malformed .expectedValue cs.length)
  | steps + 1, levels, cs =>
    match cs with
    | '"' :: rest =>
      match readString rest with
      | .error e => .error e
      | .ok (name, rest) =>
        match skipLayout rest with
        | ':' :: rest =>
          match readValue digits steps levels (skipLayout rest) with
          | .error e => .error e
          | .ok (v, rest) =>
            let member := (Key.str (.ofList name), v)
            match skipLayout rest with
            | '}' :: rest => .ok ([member], rest)
            | ',' :: rest =>
              (readMembers digits steps levels (skipLayout rest)).map fun p => (member :: p.1, p.2)
            | rest => .error (.malformed .expectedComma rest.length)
        | rest => .error (.malformed .expectedColon rest.length)
    | cs => .error (.malformed .expectedName cs.length)

end

/-- A value with nothing but layout around it. -/
def readChars (cs : List Char) : Except Stop Json :=
  match cs with
  | '\ufeff' :: _ => .error (.malformed .byteOrderMark cs.length)
  | _ =>
    match readValue maxDigits (2 * cs.length + 2) maxNesting (skipLayout cs) with
    | .error e => .error e
    | .ok (v, rest) =>
      match skipLayout rest with
      | [] => .ok v
      | rest => .error (.malformed .extraData rest.length)

/-- Where and why a text is no JSON text. -/
inductive TextFault where
  | malformed (cause : ReadCause) (line column offset : Nat)
  | excess (excess : Excess)
  deriving DecidableEq

def Stop.locate (cs : List Char) : Stop → TextFault
  | .excess e => .excess e
  | .malformed cause left =>
    let offset := cs.length - left
    let before := cs.take offset
    let column := (before.reverse.takeWhile (· != '\n')).length + 1
    .malformed cause (before.count '\n' + 1) column offset

def read (s : String) : Except TextFault Json :=
  (readChars s.toList).mapError (·.locate s.toList)

def Excess.message : Excess → String
  | .digits count =>
    s!"Exceeds the limit ({maxDigits} digits) for integer string conversion: value has {count} " ++
      "digits; use sys.set_int_max_str_digits() to increase the limit"
  | .writtenDigits =>
    s!"Exceeds the limit ({maxDigits} digits) for integer string conversion; " ++
      "use sys.set_int_max_str_digits() to increase the limit"
  | .nesting => s!"nested deeper than {maxNesting} levels"

def TextFault.message : TextFault → String
  | .malformed cause line column offset =>
    s!"{cause.message}: line {line} column {column} (char {offset})"
  | .excess e => e.message

end Json

end ContractGraph
