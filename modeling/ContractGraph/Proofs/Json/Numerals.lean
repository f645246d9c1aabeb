import ContractGraph.Json.Reader
import ContractGraph.Number.Binary64
import Mathlib.Data.List.Basic

/-!
# Numerals

The digits of a whole number are read as the number, wherever the text ends behind them or goes on
with layout, a comma or a closing bracket.
-/

namespace ContractGraph.Json

set_option autoImplicit false

/-- Reading a number or a value stops where none of these characters is left out. -/
def Ends (rest : List Char) : Prop :=
  ∀ c, rest.head? = some c → c ∈ [' ', '\t', '\n', '\r', ',', ']', '}']

theorem digits_value_eq (ds : List Char) : digitsValue ds = Nat.ofDigitChars 10 ds 0 := by
  rw [Nat.ofDigitChars_eq_foldl]
  rfl

theorem is_digit_of_mem {n : Nat} {c : Char} (member : c ∈ Nat.toDigits 10 n) : isDigit c = true := by
  have digit := Nat.isDigit_of_mem_toDigits (by decide) (by decide) member
  simpa [isDigit, Char.isDigit, Char.le_def] using digit

theorem leading_digit {n : Nat} (positive : n ≠ 0) :
    ∃ d ds, Nat.toDigits 10 n = d :: ds ∧ d ≠ '0' := by
  induction n using Nat.strongRecOn with
  | ind n ih =>
    by_cases small : n < 10
    · refine ⟨n.digitChar, [], Nat.toDigits_of_lt_base small, ?_⟩
      have digits : ∀ n < 10, n ≠ 0 → n.digitChar ≠ '0' := by decide
      exact digits n small positive
    · obtain ⟨d, ds, written, leads⟩ := ih (n / 10) (by omega) (by omega)
      refine ⟨d, ds ++ [(n % 10).digitChar], ?_, leads⟩
      rw [Nat.toDigits_of_base_le (by decide) (by omega), written]
      rfl

theorem not_digit_of_ends {rest : List Char} (ends : Ends rest) {c : Char}
    (head : rest.head? = some c) : isDigit c = false := by
  have every : [' ', '\t', '\n', '\r', ',', ']', '}'].all (fun c => !isDigit c) = true := by decide
  simpa using List.all_eq_true.mp every c (ends c head)

theorem take_digits {ds rest : List Char} (digits : ∀ c ∈ ds, isDigit c = true) (ends : Ends rest) :
    (ds ++ rest).takeWhile isDigit = ds ∧ (ds ++ rest).dropWhile isDigit = rest := by
  rw [List.takeWhile_append_of_pos digits, List.dropWhile_append_of_pos digits]
  rcases rest with _ | ⟨c, tail⟩
  · simp
  · have stop := not_digit_of_ends ends (c := c) rfl
    simp [stop]

theorem read_whole_digits (n : Nat) {rest : List Char} (ends : Ends rest) :
    readWhole (Nat.toDigits 10 n ++ rest) = some (Nat.toDigits 10 n, rest) := by
  by_cases zero : n = 0
  · subst zero
    rfl
  · obtain ⟨d, ds, written, leads⟩ := leading_digit zero
    have all : ∀ c ∈ d :: ds, isDigit c = true := by
      intro c member
      exact is_digit_of_mem (written ▸ member)
    obtain ⟨taken, left⟩ := take_digits all ends
    rw [List.cons_append] at taken left
    rw [written, List.cons_append, readWhole]
    · rw [if_pos (all d List.mem_cons_self), taken, left]
    · exact leads

theorem no_fraction {rest : List Char} (ends : Ends rest) : readFraction rest = none := by
  unfold readFraction
  split
  · next d tail =>
    exact absurd (ends '.' rfl) (by decide)
  · rfl

theorem no_exponent {rest : List Char} (ends : Ends rest) : readExponent rest = none := by
  rcases rest with _ | ⟨c, tail⟩
  · rfl
  · have other : ¬ (c = 'e' ∨ c = 'E') := by
      rintro (rfl | rfl)
      · exact absurd (ends 'e' rfl) (by decide)
      · exact absurd (ends 'E' rfl) (by decide)
    simp only [readExponent, if_neg other]

theorem int_text (i : Int) :
    (toString i).toList = (if i < 0 then ['-'] else []) ++ Nat.toDigits 10 i.natAbs := by
  rcases i with n | n
  · have whole : toString (Int.ofNat n) = toString n := rfl
    have sign : ¬ Int.ofNat n < 0 := Int.not_lt.mpr (Int.natCast_nonneg n)
    rw [whole, Nat.toString_eq_ofList_toDigits, if_neg sign, String.toList_ofList]
    rfl
  · have whole : toString (Int.negSucc n) = "-" ++ toString (n + 1) := rfl
    rw [whole, Nat.toString_eq_ofList_toDigits, if_pos (Int.negSucc_lt_zero n), String.toList_append,
      show (String.ofList (Nat.toDigits 10 (n + 1))).toList = Nat.toDigits 10 (n + 1) from
        String.toList_ofList]
    rfl

theorem read_number_unsigned {digits : Nat} {ds rest : List Char} (few : ¬ digits < ds.length)
    (whole : readWhole (ds ++ rest) = some (ds, rest)) (ends : Ends rest)
    (unsigned : ∀ body, ds ++ rest ≠ '-' :: body) :
    readNumber digits (ds ++ rest) = .ok (.int (digitsValue ds), rest) := by
  unfold readNumber
  split
  next negative body sign =>
  split at sign
  · next body' start => exact absurd start (unsigned body')
  · cases sign
    simp only [whole, no_fraction ends, no_exponent ends, Option.map_none, Option.getD_none,
      Option.isNone_none, Bool.and_self, if_true, if_neg few, Bool.false_eq_true, if_false]

theorem read_number_negative {digits : Nat} {ds rest : List Char} (few : ¬ digits < ds.length)
    (whole : readWhole (ds ++ rest) = some (ds, rest)) (ends : Ends rest) :
    readNumber digits ('-' :: (ds ++ rest)) = .ok (.int (-digitsValue ds), rest) := by
  unfold readNumber
  simp only [whole, no_fraction ends, no_exponent ends, Option.map_none, Option.getD_none,
      Option.isNone_none, Bool.and_self, if_true, if_neg few]

theorem read_number_int {digits : Nat} {i : Int}
    (short : Binary64.decimalLength i.natAbs ≤ digits) {rest : List Char} (ends : Ends rest) :
    readNumber digits ((toString i).toList ++ rest) = .ok (.int i, rest) := by
  have few : ¬ digits < (Nat.toDigits 10 i.natAbs).length := Nat.not_lt.mpr short
  have whole := read_whole_digits i.natAbs ends
  have value : digitsValue (Nat.toDigits 10 i.natAbs) = i.natAbs := by
    rw [digits_value_eq, Nat.ofDigitChars_ten_toDigits]
  rw [int_text]
  split
  · next negative =>
    have same : -(i.natAbs : Int) = i := by omega
    have read := read_number_negative few whole ends
    rw [value, same] at read
    exact read
  · next positive =>
    have same : (i.natAbs : Int) = i := by omega
    have unsigned : ∀ body, Nat.toDigits 10 i.natAbs ++ rest ≠ '-' :: body := by
      intro body start
      obtain ⟨d, ds, written⟩ :=
        List.exists_cons_of_ne_nil (Nat.toDigits_ne_nil (n := i.natAbs) (b := 10))
      have digit : isDigit d = true := is_digit_of_mem (written ▸ List.mem_cons_self)
      rw [written, List.cons_append] at start
      rw [(List.cons.inj start).1] at digit
      exact absurd digit (by decide)
    have read := read_number_unsigned few whole ends unsigned
    rw [value, same] at read
    exact read

end ContractGraph.Json
