import ContractGraph.Resolver
import Mathlib.Data.List.TakeWhile

/-!
# Segments of a path

What stands after the last separator of a path can be read in three ways: as the last piece of the
path cut at its separators, by going back from the end, or by comparing the end of the path with a
text that starts with the separator.
-/

namespace ContractGraph.Text

set_option autoImplicit false

theorem split_at_of_not_mem {sep : Char} {cs : List Char} (absent : sep ∉ cs) :
    splitAt sep cs = [cs] := by
  induction cs with
  | nil => rfl
  | cons c cs ih =>
    obtain ⟨other, rest⟩ := not_or.mp (mt List.mem_cons.mpr absent)
    rw [splitAt, if_neg (Ne.symm other), ih rest]

theorem split_at_append (sep : Char) (before after : List Char) :
    splitAt sep (before ++ sep :: after) = splitAt sep before ++ splitAt sep after := by
  induction before with
  | nil => simp [splitAt]
  | cons c before ih =>
    rw [List.cons_append, splitAt, splitAt, ih]
    by_cases same : c = sep
    · rw [if_pos same, if_pos same, List.cons_append]
    · rw [if_neg same, if_neg same]
      rcases pieces : splitAt sep before with _ | ⟨piece, rest⟩
      · exact absurd pieces (split_at_ne_nil sep before)
      · rfl

/-- What comes back from the end until a stop. -/
def backUntil (stop : Char → Bool) (cs : List Char) : List Char :=
  (cs.reverse.takeWhile fun c => !stop c).reverse

theorem back_until_clear (stop : Char → Bool) (cs : List Char) :
    ∀ c ∈ backUntil stop cs, stop c = false := by
  intro c member
  have taken := List.mem_reverse.mp member
  simpa using List.mem_takeWhile_imp taken

/-- Going back from the end either meets no stop and takes everything, or it leaves the last stop
and what stands before it. -/
theorem back_until_cases (stop : Char → Bool) (cs : List Char) :
    backUntil stop cs = cs ∨
      ∃ before sep, stop sep = true ∧ cs = before ++ sep :: backUntil stop cs := by
  have parts := List.takeWhile_append_dropWhile (p := fun c => !stop c) (l := cs.reverse)
  have whole := congrArg List.reverse parts
  rw [List.reverse_append, List.reverse_reverse] at whole
  rcases rest : cs.reverse.dropWhile (fun c => !stop c) with _ | ⟨sep, before⟩
  · left
    rw [rest] at whole
    exact whole
  · right
    have stops := List.head_dropWhile_not (fun c => !stop c) (l := cs.reverse)
      (by rw [rest]; exact List.cons_ne_nil _ _)
    refine ⟨before.reverse, sep, by simpa [rest] using stops, ?_⟩
    rw [rest, List.reverse_cons, List.append_assoc] at whole
    exact whole.symm

theorem back_until_append {stop : Char → Bool} {sep : Char} {after : List Char}
    (before : List Char) (stops : stop sep = true) (clear : ∀ c ∈ after, stop c = false) :
    backUntil stop (before ++ sep :: after) = after := by
  have taken : ∀ c ∈ after.reverse, (!stop c) = true := by
    intro c member
    simpa using clear c (List.mem_reverse.mp member)
  rw [backUntil, List.reverse_append, List.reverse_cons, List.append_assoc,
    List.takeWhile_append_of_pos taken]
  simp [stops]

/-- The text that comes back until a separator ends the path after a separator, and there is no
other text without the separator that does. -/
theorem back_until_eq_iff_suffix {sep : Char} {text cs : List Char} (absent : sep ∉ text) :
    sep ∈ cs ∧ backUntil (· == sep) cs = text ↔ (sep :: text) <:+ cs := by
  constructor
  · intro given
    rcases given with ⟨member, back⟩
    rcases back_until_cases (· == sep) cs with all | ⟨before, found, stops, whole⟩
    · rw [← all] at member
      exact absurd (back_until_clear _ _ sep member) (by simp)
    · have same : found = sep := by simpa using stops
      rw [same, back] at whole
      exact ⟨before, whole.symm⟩
  · intro given
    rcases given with ⟨before, rfl⟩
    refine ⟨by simp, back_until_append before (by simp) ?_⟩
    intro c member
    simpa using fun same : c = sep => absent (same ▸ member)

end ContractGraph.Text

namespace ContractGraph.EntryId

set_option autoImplicit false

def isSeparator (c : Char) : Bool := c == '/' || c == '\\'

theorem not_mem_with_slashes (cs : List Char) : '\\' ∉ withSlashes cs := by
  intro member
  rcases List.mem_map.mp member with ⟨c, -, made⟩
  split at made
  · exact absurd made (by decide)
  · next other => exact other made

theorem with_slashes_of_not_mem {cs : List Char} (clear : '\\' ∉ cs) : withSlashes cs = cs := by
  have same : ∀ c ∈ cs, (if c = '\\' then '/' else c) = id c := by
    intro c member
    apply if_neg
    rintro rfl
    exact clear member
  rw [withSlashes, List.map_congr_left same, List.map_id]

theorem with_slashes_of_clear {cs : List Char} (clear : ∀ c ∈ cs, isSeparator c = false) :
    withSlashes cs = cs ∧ '/' ∉ cs := by
  constructor
  · apply with_slashes_of_not_mem
    intro member
    exact absurd (clear _ member) (by decide)
  · intro member
    exact absurd (clear _ member) (by decide)

theorem last_segment_eq_back_until (cs : List Char) :
    lastSegment cs = Text.backUntil isSeparator cs := by
  have stops : (fun c : Char => c != '/' && c != '\\') = fun c => !isSeparator c := by
    funext c
    simp [isSeparator, bne]
  rw [lastSegment, Text.backUntil, stops]

/-- The last segment is the last piece of the path with its backslashes made slashes. -/
theorem last_piece_eq_last_segment (cs : List Char) :
    (Text.splitAt '/' (withSlashes cs)).getLastD [] = lastSegment cs := by
  have clear := Text.back_until_clear isSeparator cs
  obtain ⟨kept, absent⟩ := with_slashes_of_clear clear
  rw [last_segment_eq_back_until]
  rcases Text.back_until_cases isSeparator cs with all | ⟨before, sep, stops, whole⟩
  · rw [all] at kept absent ⊢
    rw [kept, Text.split_at_of_not_mem absent]
    rfl
  · have slash : (if sep = '\\' then '/' else sep) = '/' := by
      simp only [isSeparator, Bool.or_eq_true, beq_iff_eq] at stops
      rcases stops with rfl | rfl <;> rfl
    have cut : withSlashes cs = withSlashes before ++ '/' :: Text.backUntil isSeparator cs := by
      calc
        withSlashes cs = withSlashes (before ++ sep :: Text.backUntil isSeparator cs) :=
          congrArg withSlashes whole
        _ = withSlashes before ++ '/' :: withSlashes (Text.backUntil isSeparator cs) := by
          simp only [withSlashes, List.map_append, List.map_cons, slash]
        _ = withSlashes before ++ '/' :: Text.backUntil isSeparator cs := by rw [kept]
    rw [cut, Text.split_at_append, Text.split_at_of_not_mem absent]
    simp

end ContractGraph.EntryId
