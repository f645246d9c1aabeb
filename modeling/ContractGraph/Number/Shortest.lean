import ContractGraph.Number.Binary64

/-!
# Shortest decimal text

The text of a binary64 number has the fewest digits that read back as the same number, and of the
decimals with that many digits the nearest one. For each digit count the two neighbours of the
value on that decimal grid are tested against the interval of reals that round to the number; the
ends belong to it exactly when the mantissa is even.

How the digits are laid out is a record of its own.
-/

namespace ContractGraph

set_option autoImplicit false

/-- `coefficient · 10 ^ exponent`. -/
structure Decimal where
  coefficient : Nat
  exponent : Int

namespace Binary64

/-- The `k` with `10 ^ (k - 1) ≤ num / den < 10 ^ k`. -/
def decimalPoint (num den : Nat) : Int :=
  if den ≤ num then decimalLength (num / den)
  else
    let l := decimalLength (den / num)
    if den ≤ num * tenTo (l - 1) then 2 - (l : Int) else 1 - (l : Int)

/-- A positive value between the two ends of its rounding interval, all over one denominator. -/
structure RoundingInterval where
  low : Nat
  value : Nat
  high : Nat
  den : Nat
  closed : Bool

def roundingInterval (mantissa : Nat) (exponent : Int) : RoundingInterval :=
  let quarter := exponent - 2
  let scale := if 0 ≤ quarter then twoTo quarter.toNat else 1
  let den := if 0 ≤ quarter then 1 else twoTo (-quarter).toNat
  let below := if mantissa = twoTo 52 ∧ leastExponent < exponent then 1 else 2
  { low := (4 * mantissa - below) * scale
    value := 4 * mantissa * scale
    high := (4 * mantissa + 2) * scale
    den := den
    closed := mantissa % 2 == 0 }

def RoundingInterval.scaleUp (i : RoundingInterval) (factor : Nat) : RoundingInterval :=
  { i with low := i.low * factor, value := i.value * factor, high := i.high * factor }

/-- Whether a point over the interval's denominator rounds to the value. -/
def RoundingInterval.contains (i : RoundingInterval) (point : Nat) : Bool :=
  if i.closed then decide (i.low ≤ point) && decide (point ≤ i.high)
  else decide (i.low < point) && decide (point < i.high)

/-- The nearest multiple of `step` inside the interval among the value's two neighbours. -/
def RoundingInterval.onGrid (i : RoundingInterval) (step : Nat) : Option Nat :=
  let unit := i.den * step
  let c := i.value / unit
  match i.contains (c * unit), i.contains ((c + 1) * unit) with
  | true, true =>
    let down := i.value - c * unit
    let up := (c + 1) * unit - i.value
    if down < up ∨ (down = up ∧ c % 2 = 0) then some c else some (c + 1)
  | true, false => some c
  | false, true => some (c + 1)
  | false, false => none

def RoundingInterval.withDigits (i : RoundingInterval) (point : Int) (count : Nat) :
    Option Decimal :=
  let exponent := point - count
  let hit :=
    if 0 ≤ exponent then i.onGrid (tenTo exponent.toNat)
    else (i.scaleUp (tenTo (-exponent).toNat)).onGrid 1
  hit.map fun c => ⟨c, exponent⟩

/-- Seventeen digits always tell two numbers apart. -/
def mostDigits : Nat := 17

def shortest (mantissa : Nat) (exponent : Int) : Decimal :=
  let i := roundingInterval mantissa exponent
  let point := decimalPoint i.value i.den
  let counts := (List.range mostDigits).map (· + 1)
  (counts.findSome? (i.withDigits point)).getD ⟨mantissa, 0⟩

/-- Where positional notation ends, and how the values that have no digits are written. -/
structure Layout where
  leastPositional : Int
  mostPositional : Int
  nan : String
  infinity : String

private def exponentText (e : Int) : List Char :=
  let digits := Nat.toDigits 10 e.natAbs
  let padded := if digits.length < 2 then '0' :: digits else digits
  (if e < 0 then '-' else '+') :: padded

/-- Lays out digits without trailing zeros, the point standing after the first `point` of them.
A positional text always keeps a digit after the point. -/
def Layout.place (l : Layout) (digits : List Char) (point : Int) : List Char :=
  let e := point - 1
  if l.leastPositional ≤ e ∧ e ≤ l.mostPositional then
    if point ≤ 0 then '0' :: '.' :: (List.replicate (-point).toNat '0' ++ digits)
    else
      let whole := digits.take point.toNat
      let fraction := digits.drop point.toNat
      whole ++ List.replicate (point.toNat - whole.length) '0' ++ '.' ::
        (if fraction.isEmpty then ['0'] else fraction)
  else
    match digits with
    | [d] => d :: 'e' :: exponentText e
    | d :: rest => d :: '.' :: (rest ++ 'e' :: exponentText e)
    | [] => []

/-- Digits without the zeros at their end. -/
def dropTrailingZeros (cs : List Char) : List Char :=
  (cs.reverse.dropWhile (· == '0')).reverse

def Layout.text (l : Layout) : Binary64 → String
  | .nan => l.nan
  | .infinite false => l.infinity
  | .infinite true => "-" ++ l.infinity
  | .finite negative 0 _ => if negative then "-0.0" else "0.0"
  | .finite negative m e =>
    let d := shortest m e
    let digits := Nat.toDigits 10 d.coefficient
    let body := l.place (dropTrailingZeros digits) (digits.length + d.exponent)
    String.ofList (if negative then '-' :: body else body)

/-- Numbers from `0.0001` to below `10 ^ 16` are positional. -/
def displayLayout : Layout := ⟨-4, 15, "nan", "inf"⟩

/-- The same digits with the names that a JSON text uses. -/
def jsonLayout : Layout := ⟨-4, 15, "NaN", "Infinity"⟩

example : displayLayout.text (ofDecimal false 1 (-1)) = "0.1" := by decide +kernel
example : displayLayout.text (ofDecimal true 1 16) = "-1e+16" := by decide +kernel
example : displayLayout.text (ofDecimal false 1 (-5)) = "1e-05" := by decide +kernel
example : displayLayout.text (ofDecimal false 5 (-324)) = "5e-324" := by decide +kernel

end Binary64

end ContractGraph
