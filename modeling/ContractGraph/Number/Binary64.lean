/-!
# Binary64 numbers

A finite number is `± mantissa · 2 ^ exponent` in one chosen form: the mantissa is below `2 ^ 53`,
and it is at least `2 ^ 52` unless the exponent is the least one. So two finite numbers of one
sign are equal exactly when their mantissas and exponents are, and zero keeps its sign.

A decimal text is read by rounding its exact rational value once, to the nearest number, a tie
going to the even mantissa.
-/

namespace ContractGraph

set_option autoImplicit false

/-- The power of two. -/
def twoTo (n : Nat) : Nat := Nat.pow 2 n

/-- The power of ten. -/
def tenTo (n : Nat) : Nat := Nat.pow 10 n

inductive Binary64 where
  | nan
  | infinite (negative : Bool)
  | finite (negative : Bool) (mantissa : Nat) (exponent : Int)
  deriving DecidableEq

namespace Binary64

def leastExponent : Int := -1074

def greatestExponent : Int := 971

def zero (negative : Bool) : Binary64 := .finite negative 0 leastExponent

/-- The quotient to the nearest whole number; a tie goes to the even one. -/
def roundQuotient (num den : Nat) : Nat :=
  let q := num / den
  let r := num % den
  if 2 * r < den then q
  else if den < 2 * r then q + 1
  else if q % 2 = 0 then q else q + 1

/-- `num / (den · 2 ^ e)` to the nearest whole number. -/
def roundScaled (num den : Nat) (e : Int) : Nat :=
  if 0 ≤ e then roundQuotient num (den * twoTo e.toNat)
  else roundQuotient (num * twoTo (-e).toNat) den

/-- Whether `num / den` is at least `2 ^ e`. -/
def atLeastPower (num den : Nat) (e : Int) : Bool :=
  if 0 ≤ e then decide (den * twoTo e.toNat ≤ num)
  else decide (den ≤ num * twoTo (-e).toNat)

/-- The number nearest to `± num / den`. -/
def ofRatio (negative : Bool) (num den : Nat) : Binary64 :=
  if num = 0 then zero negative
  else
    let top : Int := (Nat.log2 num : Int) - (Nat.log2 den : Int)
    let lead := if atLeastPower num den top then top else top - 1
    let e := max (lead - 52) leastExponent
    let m := roundScaled num den e
    let (m, e) := if m = twoTo 53 then (twoTo 52, e + 1) else (m, e)
    if greatestExponent < e then .infinite negative else .finite negative m e

/-- How many decimal digits a number has; zero has one. -/
def decimalLength (n : Nat) : Nat := (Nat.toDigits 10 n).length

/-- The number nearest to `± coefficient · 10 ^ exponent`. Far outside the range of the format no
power is computed. -/
def ofDecimal (negative : Bool) (coefficient : Nat) (exponent : Int) : Binary64 :=
  if coefficient = 0 then zero negative
  else if 400 < (decimalLength coefficient : Int) + exponent then .infinite negative
  else if (decimalLength coefficient : Int) + exponent < -400 then zero negative
  else if 0 ≤ exponent then ofRatio negative (coefficient * tenTo exponent.toNat) 1
  else ofRatio negative coefficient (tenTo (-exponent).toNat)

def isZero : Binary64 → Bool
  | .finite _ 0 _ => true
  | _ => false

example : ofDecimal false 1 0 = .finite false (twoTo 52) (-52) := by decide +kernel
example : ofDecimal false 5 (-324) = .finite false 1 leastExponent := by decide +kernel
example : ofDecimal false 17976931348623158 292 = .finite false (twoTo 53 - 1) 971 := by
  decide +kernel
example : ofDecimal false 18 307 = .infinite false := by decide +kernel

end Binary64

/-- A whole number, a binary64 number or an infinity as a point of the extended line; not a
number is no point of it. -/
inductive LinePoint where
  | bottom
  | dyadic (coefficient : Int) (exponent : Int)
  | top
  deriving DecidableEq

namespace LinePoint

def ofInt (i : Int) : LinePoint := .dyadic i 0

def ofBinary64? : Binary64 → Option LinePoint
  | .nan => none
  | .infinite true => some .bottom
  | .infinite false => some .top
  | .finite true m e => some (.dyadic (-(m : Int)) e)
  | .finite false m e => some (.dyadic m e)

/-- Exact comparison: both values are written over the smaller power of two. -/
def order : LinePoint → LinePoint → Ordering
  | .bottom, .bottom => .eq
  | .bottom, _ => .lt
  | _, .bottom => .gt
  | .top, .top => .eq
  | .top, _ => .gt
  | _, .top => .lt
  | .dyadic a e, .dyadic b f =>
    let g := min e f
    compare (a * (twoTo (e - g).toNat : Int)) (b * (twoTo (f - g).toNat : Int))

/-- The greatest whole number that is not above the point; the ends of the line have none. -/
def floor? : LinePoint → Option Int
  | .dyadic a e => some (if 0 ≤ e then a * (twoTo e.toNat : Int) else a / (twoTo (-e).toNat : Int))
  | _ => none

/-- The least whole number that is not below the point. -/
def ceiling? : LinePoint → Option Int
  | .dyadic a e => (floor? (.dyadic (-a) e)).map (- ·)
  | _ => none

@[simp] theorem floor_of_int (i : Int) : (ofInt i).floor? = some i := by
  simp [ofInt, floor?, twoTo]

@[simp] theorem ceiling_of_int (i : Int) : (ofInt i).ceiling? = some i := by
  simp [ofInt, ceiling?, floor?, twoTo]

example : (dyadic 3 (-1)).floor? = some 1 ∧ (dyadic 3 (-1)).ceiling? = some 2 ∧
    (dyadic (-3) (-1)).floor? = some (-2) ∧ top.floor? = none := by decide

end LinePoint

end ContractGraph
