import ContractGraph.Number.Shortest
import ContractGraph.Proofs.Json.Numerals
import Mathlib.Data.List.TakeWhile

/-!
# Digits of binary64 numbers

The shortest decimal of a number that is not zero is not zero, for no interval of reals that round to
such a number reaches zero. So every number has a text that is not empty.
-/

namespace ContractGraph.Binary64

set_option autoImplicit false

namespace RoundingInterval

variable {i : RoundingInterval} {step c : Nat}

theorem positive_of_contains (positive : 0 < i.low) {point : Nat}
    (inside : i.contains point = true) : 0 < point := by
  rw [contains] at inside
  split at inside
  · simp only [Bool.and_eq_true, decide_eq_true_eq] at inside
    omega
  · simp only [Bool.and_eq_true, decide_eq_true_eq] at inside
    omega

theorem contains_of_on_grid (found : i.onGrid step = some c) :
    i.contains (c * (i.den * step)) = true := by
  rw [onGrid] at found
  simp only at found
  split at found
  · next down up =>
    split at found
    · cases found
      exact down
    · cases found
      exact up
  · next down up =>
    cases found
    exact down
  · next down up =>
    cases found
    exact up
  · cases found

theorem on_grid_positive (positive : 0 < i.low) (found : i.onGrid step = some c) : 0 < c := by
  have inside := positive_of_contains positive (contains_of_on_grid found)
  exact Nat.pos_of_mul_pos_right inside

theorem with_digits_positive (positive : 0 < i.low) {point : Int} {count : Nat} {d : Decimal}
    (found : i.withDigits point count = some d) : 0 < d.coefficient := by
  rw [withDigits, Option.map_eq_some_iff] at found
  obtain ⟨c, hit, rfl⟩ := found
  split at hit
  · exact on_grid_positive positive hit
  · have scaled : 0 < (i.scaleUp (tenTo (-(point - count)).toNat)).low :=
      Nat.mul_pos positive (Nat.pow_pos (by decide))
    exact on_grid_positive scaled hit

end RoundingInterval

theorem rounding_interval_positive {mantissa : Nat} (positive : 0 < mantissa) (exponent : Int) :
    0 < (roundingInterval mantissa exponent).low := by
  refine Nat.mul_pos ?_ ?_
  · split <;> omega
  · split
    · exact Nat.pow_pos (by decide)
    · decide

theorem shortest_positive {mantissa : Nat} (positive : 0 < mantissa) (exponent : Int) :
    0 < (shortest mantissa exponent).coefficient := by
  have low := rounding_interval_positive positive exponent
  rw [shortest]
  generalize roundingInterval mantissa exponent = i at low ⊢
  cases found : ((List.range mostDigits).map (· + 1)).findSome?
      (i.withDigits (decimalPoint i.value i.den)) with
  | none => exact positive
  | some d =>
    obtain ⟨count, -, hit⟩ := List.exists_of_findSome?_eq_some found
    exact RoundingInterval.with_digits_positive low hit

theorem drop_trailing_zeros_ne_nil {n : Nat} (positive : n ≠ 0) :
    dropTrailingZeros (Nat.toDigits 10 n) ≠ [] := by
  obtain ⟨d, ds, written, leads⟩ := Json.leading_digit positive
  intro none
  rw [dropTrailingZeros, List.reverse_eq_nil_iff] at none
  have zero := List.dropWhile_eq_nil_iff.mp none d (by simp [written])
  exact leads (by simpa using zero)

theorem Layout.place_ne_nil (l : Layout) {digits : List Char} (some : digits ≠ []) (point : Int) :
    l.place digits point ≠ [] := by
  simp only [place]
  split
  · split <;> simp
  · split
    · simp
    · simp
    · exact absurd rfl some

theorem Layout.text_ne_empty (l : Layout) (nan : l.nan ≠ "") (infinity : l.infinity ≠ "")
    (f : Binary64) : l.text f ≠ "" := by
  unfold text
  split
  · exact nan
  · exact infinity
  · simp
  · split <;> decide
  · next negative m e positive =>
    have positive : 0 < m := Nat.pos_of_ne_zero positive
    have digits := drop_trailing_zeros_ne_nil (Nat.ne_of_gt (shortest_positive positive e))
    have body := l.place_ne_nil digits
    intro empty
    have chars := congrArg String.toList empty
    simp only [String.toList_ofList] at chars
    split at chars
    · cases chars
    · exact body _ chars

end ContractGraph.Binary64
