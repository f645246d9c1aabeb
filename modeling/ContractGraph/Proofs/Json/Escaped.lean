import ContractGraph.Json.Printer
import ContractGraph.Json.Reader
import Mathlib.Data.List.Basic

/-!
# Escaped characters

An escaped character is read as the character that was written: a short escape, an escape of one
UTF-16 unit and one of two units alike.
-/

namespace ContractGraph.Json

set_option autoImplicit false

theorem hex_value_digit {n : Nat} (small : n < 16) : hexValue? (Text.hexDigit n) = some n := by
  have all : ∀ n < 16, hexValue? (Text.hexDigit n) = some n := by decide
  exact all n small

/-- Four hexadecimal digits are read as the number that was written. -/
theorem hex_quad_digits {n : Nat} (small : n < 0x10000) :
    ∃ a b c d, Text.hexDigits 4 n = [a, b, c, d] ∧ hexQuad? a b c d = some n := by
  refine ⟨_, _, _, _, rfl, ?_⟩
  simp only [hexQuad?, hex_value_digit (Nat.mod_lt _ (by decide : 16 > 0)), Option.bind_eq_bind,
    Option.bind_some, Option.pure_def, Option.some.injEq]
  omega

theorem read_string_unit {rest tail : List Char} {c : Char}
    (read : readUnitEscape rest = .ok (c, tail)) :
    readStringBody ('\\' :: 'u' :: rest) = prepend c (readStringBody tail) := by
  rw [readStringBody.eq_def]
  simp only
  split
  · next fault failed =>
    rw [read] at failed
    cases failed
  · next c' tail' done =>
    rw [read] at done
    cases done
    rfl

theorem read_string_escaped {e c : Char} (rest : List Char) (unit : e ≠ 'u')
    (simple : simpleEscape? e = some c) :
    readStringBody ('\\' :: e :: rest) = prepend c (readStringBody rest) := by
  rw [readStringBody.eq_def]
  split
  · next h => cases h
  · next h => cases h
  · next h => cases h
  · next h => cases h; exact absurd rfl unit
  · next h =>
    cases h
    rw [simple]
  · next other h =>
    cases h
    exact (other e rest rfl rfl).elim

theorem read_string_char {c : Char} (rest : List Char) (quote : c ≠ '"') (backslash : c ≠ '\\')
    (printable : ¬ c.toNat < 0x20) :
    readStringBody (c :: rest) = prepend c (readStringBody rest) := by
  rw [readStringBody.eq_def]
  split
  · next h => cases h
  · next h => exact absurd (List.cons.inj h).1 quote
  · next h => exact absurd (List.cons.inj h).1 backslash
  · next h => exact absurd (List.cons.inj h).1 backslash
  · next h => exact absurd (List.cons.inj h).1 backslash
  · next h =>
    cases h
    rw [if_neg printable]

theorem read_unit_digits {n : Nat} (small : n < 0x10000) (plane : isHighSurrogate n = false)
    {rest : List Char} (more : rest ≠ []) :
    readUnitEscape (Text.hexDigits 4 n ++ rest) = .ok (unitChar n, rest) := by
  obtain ⟨a, b, c, d, written, read⟩ := hex_quad_digits small
  obtain ⟨e, tail, rfl⟩ := List.exists_cons_of_ne_nil more
  rw [written]
  simp [readUnitEscape, read, plane]

theorem read_unit_pair {high low : Nat} (first : isHighSurrogate high = true)
    (second : isLowSurrogate low = true) {rest : List Char} (more : rest ≠ []) :
    readUnitEscape (Text.hexDigits 4 high ++ '\\' :: 'u' :: (Text.hexDigits 4 low ++ rest)) =
      .ok (pairChar high low, rest) := by
  have highSmall : high < 0x10000 := by
    simp [isHighSurrogate] at first
    omega
  have lowSmall : low < 0x10000 := by
    simp [isLowSurrogate] at second
    omega
  obtain ⟨a, b, c, d, written, read⟩ := hex_quad_digits highSmall
  obtain ⟨a', b', c', d', written', read'⟩ := hex_quad_digits lowSmall
  obtain ⟨e, tail, rfl⟩ := List.exists_cons_of_ne_nil more
  rw [written, written']
  simp [readUnitEscape, read, read', first, second]


theorem unit_char_of_char (c : Char) :
    isHighSurrogate c.toNat = false ∧ unitChar c.toNat = c := by
  have valid := c.valid
  have apart : isHighSurrogate c.toNat = false ∧ isLowSurrogate c.toNat = false := by
    simp only [UInt32.isValidChar, Nat.isValidChar] at valid
    simp only [isHighSurrogate, isLowSurrogate, Bool.and_eq_false_iff, decide_eq_false_iff_not,
      Char.toNat]
    omega
  refine ⟨apart.1, ?_⟩
  simp [unitChar, apart.1, apart.2]

theorem pair_char_of_char (c : Char) (wide : ¬ c.toNat < 0x10000) :
    isHighSurrogate (0xd800 + (c.toNat - 0x10000) / 0x400) = true ∧
      isLowSurrogate (0xdc00 + (c.toNat - 0x10000) % 0x400) = true ∧
      pairChar (0xd800 + (c.toNat - 0x10000) / 0x400) (0xdc00 + (c.toNat - 0x10000) % 0x400) =
        c := by
  have least : c.toNat < 0x110000 := by
    have valid := c.valid
    simp only [UInt32.isValidChar, Nat.isValidChar] at valid
    simp only [Char.toNat]
    omega
  refine ⟨?_, ?_, ?_⟩
  · simp only [isHighSurrogate, Bool.and_eq_true, decide_eq_true_eq]
    omega
  · simp only [isLowSurrogate, Bool.and_eq_true, decide_eq_true_eq]
    omega
  · have whole : 0x10000 + (0xd800 + (c.toNat - 0x10000) / 0x400 - 0xd800) * 0x400 +
        (0xdc00 + (c.toNat - 0x10000) % 0x400 - 0xdc00) = c.toNat := by omega
    rw [pairChar, whole, Char.ofNat_toNat]

theorem escape_basic_read (c : Char) {rest : List Char} (more : rest ≠ []) :
    readStringBody (escapeBasic c ++ rest) = prepend c (readStringBody rest) := by
  unfold escapeBasic
  split
  · next same =>
    subst same
    exact read_string_escaped rest (by decide) rfl
  split
  · next same =>
    subst same
    exact read_string_escaped rest (by decide) rfl
  split
  · next same =>
    subst same
    exact read_string_escaped rest (by decide) rfl
  split
  · next same =>
    subst same
    exact read_string_escaped rest (by decide) rfl
  split
  · next same =>
    subst same
    exact read_string_escaped rest (by decide) rfl
  split
  · next same =>
    subst same
    exact read_string_escaped rest (by decide) rfl
  split
  · next same =>
    subst same
    exact read_string_escaped rest (by decide) rfl
  split
  · next control =>
    have basic : c.toNat < 0x10000 := by omega
    obtain ⟨plane, same⟩ := unit_char_of_char c
    have read := read_unit_digits basic plane more
    rw [same] at read
    exact read_string_unit read
  · next quote backslash _ _ _ _ _ printable =>
    exact read_string_char rest quote backslash printable

theorem escape_ascii_read (c : Char) {rest : List Char} (more : rest ≠ []) :
    readStringBody (escapeAscii c ++ rest) = prepend c (readStringBody rest) := by
  unfold escapeAscii
  split
  · exact escape_basic_read c more
  split
  · next basic =>
    obtain ⟨plane, same⟩ := unit_char_of_char c
    have read := read_unit_digits basic plane more
    rw [same] at read
    exact read_string_unit read
  · next wide =>
    obtain ⟨first, second, same⟩ := pair_char_of_char c wide
    have read := read_unit_pair first second more
    rw [same] at read
    have text := read_string_unit read
    simpa using text

end ContractGraph.Json
