import ContractGraph.Digest.Form
import ContractGraph.Proofs.Text.FinalNewline

/-!
# Computed hashes

A computed hash is its prefix and twenty-four hash digits, so it has the form that the checks ask
for.
-/

namespace ContractGraph

set_option autoImplicit false

namespace Hash

theorem digest_chars_hashed (text : String) : ∀ c ∈ digestChars text, isHashDigit c = true := by
  have digit : ∀ n < 16, isHashDigit (Text.hexDigit n) = true := by decide
  intro c member
  obtain ⟨word, -, written⟩ := List.mem_flatMap.mp (List.mem_of_mem_take member)
  obtain ⟨d, small, rfl⟩ := Text.mem_hex_digits written
  exact digit d small

/-- A computed hash has the form of its prefix, when the number of computed digits is allowed. -/
theorem of_text_has_form {pre : String} {allowed : Nat → Bool} (clear : '\n' ∉ pre.toList)
    (fits : allowed digestLength = true) (text : String) :
    hasForm pre allowed (ofText pre text) = true := by
  have digits := digest_chars_hashed text
  have whole : (ofText pre text).toList = pre.toList ++ digestChars text := by simp [ofText]
  have ends : '\n' ∉ pre.toList ++ digestChars text := by
    rw [List.mem_append, not_or]
    exact ⟨clear, fun member => absurd (digits _ member) (by decide)⟩
  have rest := (Text.drop_prefix_eq_some_iff pre.toList (pre.toList ++ digestChars text)
    (digestChars text)).mpr rfl
  rw [hasForm, whole, Text.split_final_newline_of_not_mem ends, rest]
  simp only [digest_chars_length, fits, Bool.and_true, List.all_eq_true]
  exact digits

end Hash

end ContractGraph
