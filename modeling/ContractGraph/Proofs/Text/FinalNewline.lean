import ContractGraph.Text.Pieces

/-!
# Checks that let a newline pass

A check of characters up to a bound accepts a list of them as soon as it does so for every number
below the bound. A check of texts that looks away from one final newline accepts the texts of a form
and these with a newline behind them, so where no text of the form holds a newline, it is wrong about
the latter only.
-/

namespace ContractGraph.Text

set_option autoImplicit false

variable {cs : List Char}

theorem split_final_newline_of_not_mem (clear : '\n' ∉ cs) : splitFinalNewline cs = (cs, []) := by
  rw [splitFinalNewline]
  split
  · next body ends =>
    rw [(drop_suffix_eq_some_iff _ _ _).mp ends] at clear
    simp at clear
  · rfl

theorem split_final_newline_append_one (cs : List Char) :
    (splitFinalNewline (cs ++ ['\n'])).1 = cs := by
  rw [splitFinalNewline, (drop_suffix_eq_some_iff ['\n'] (cs ++ ['\n']) cs).mpr rfl]

theorem split_final_newline_cases (cs : List Char) :
    (splitFinalNewline cs).1 = cs ∨ (splitFinalNewline cs).1 ++ ['\n'] = cs := by
  rw [splitFinalNewline]
  split
  · next body ends => exact .inr ((drop_suffix_eq_some_iff _ _ _).mp ends).symm
  · exact .inl rfl

/-- The texts of a form that holds no newline are those of the form or with one newline behind them,
but for the latter. -/
theorem or_newline_exact_iff {Form : String → Prop} (clear : ∀ t, Form t → '\n' ∉ t.toList)
    (s : String) : ((Form s ∨ ∃ t, Form t ∧ s = t ++ "\n") ↔ Form s) ↔
      ¬∃ t, Form t ∧ s = t ++ "\n" := by
  constructor
  · rintro right ⟨t, form, rfl⟩
    have ends : '\n' ∈ (t ++ "\n").toList := by simp
    exact clear _ (right.mp (.inr ⟨t, form, rfl⟩)) ends
  · exact or_iff_left

/-- A check that accepts no character from a bound on is a list of characters when it is one for the
numbers below the bound. -/
theorem check_iff_mem {check : Char → Bool} {chars : List Char} (bound : Nat)
    (small : ∀ c, check c = true → c.toNat < bound)
    (listed : ∀ n < bound, check (Char.ofNat n) = true → Char.ofNat n ∈ chars)
    (all : chars.all check = true) (c : Char) : check c = true ↔ c ∈ chars := by
  constructor
  · intro passes
    have same : Char.ofNat c.toNat = c := Char.ofNat_toNat c
    rw [← same]
    apply listed c.toNat (small c passes)
    rw [same]
    exact passes
  · exact List.all_eq_true.mp all c

end ContractGraph.Text
