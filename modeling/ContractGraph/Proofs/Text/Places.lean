import ContractGraph.Text.Pieces
import Mathlib.Data.List.Infix

/-!
# First places of a pattern

A text that is cut around a pattern is cut at the first place of the pattern: of the piece before it
and the pattern together, the end is the only place where the pattern stands. A text that cannot be
cut does not hold the pattern.
-/

namespace ContractGraph.Text

set_option autoImplicit false

variable {pattern piece cs before after : List Char}

/-- No place of the pattern starts within the piece, when the pattern follows the piece. -/
def Precedes (piece pattern : List Char) : Prop := ¬ pattern <:+: piece ++ pattern.dropLast

instance (piece pattern : List Char) : Decidable (Precedes piece pattern) :=
  inferInstanceAs (Decidable (¬ _))

theorem precedes_nil (filled : pattern ≠ []) : Precedes [] pattern := by
  intro within
  have shorter := within.length_le
  have positive := List.length_pos_of_ne_nil filled
  simp only [List.nil_append, List.length_dropLast] at shorter
  omega

/-- A pattern that starts before its last character is reached does not need what follows. -/
theorem prefix_cut_iff {c : Char} (piece after : List Char) (filled : pattern ≠ []) :
    pattern <+: c :: (piece ++ pattern ++ after) ↔ pattern <+: c :: (piece ++ pattern.dropLast) := by
  have whole : c :: (piece ++ pattern ++ after) =
      c :: (piece ++ pattern.dropLast) ++ (pattern.getLast filled :: after) := by
    conv_lhs => rw [← List.dropLast_append_getLast filled]
    simp
  have within : c :: (piece ++ pattern.dropLast) <+: c :: (piece ++ pattern ++ after) :=
    ⟨_, whole.symm⟩
  constructor
  · intro starts
    refine List.prefix_of_prefix_length_le starts within ?_
    have positive := List.length_pos_of_ne_nil filled
    simp only [List.length_cons, List.length_append, List.length_dropLast]
    omega
  · intro starts
    exact starts.trans within

theorem precedes_cons_iff {c : Char} (after : List Char) (filled : pattern ≠ []) :
    Precedes (c :: piece) pattern ↔
      ¬ pattern <+: c :: (piece ++ pattern ++ after) ∧ Precedes piece pattern := by
  rw [Precedes, List.cons_append, List.infix_cons_iff, not_or, prefix_cut_iff piece after filled]
  rfl

theorem drop_prefix_eq_none_iff : dropPrefix? pattern cs = none ↔ ¬ pattern <+: cs := by
  rw [← Option.not_isSome_iff_eq_none, Option.isSome_iff_exists]
  refine not_congr ⟨?_, ?_⟩
  · rintro ⟨rest, found⟩
    exact ⟨rest, ((drop_prefix_eq_some_iff pattern cs rest).mp found).symm⟩
  · rintro ⟨rest, whole⟩
    exact ⟨rest, (drop_prefix_eq_some_iff pattern cs rest).mpr whole.symm⟩

theorem break_on_further {c : Char} (starts : dropPrefix? pattern (c :: cs) = none) :
    breakOn pattern (c :: cs) =
      (breakOn pattern cs).map fun parts => (c :: parts.1, parts.2) := by
  rw [breakOn, starts]

/-- A text cannot be cut around what it does not hold. -/
theorem break_on_eq_none_iff : breakOn pattern cs = none ↔ ¬ pattern <:+: cs := by
  induction cs with
  | nil =>
    rw [breakOn, Option.map_eq_none_iff, drop_prefix_eq_none_iff, List.prefix_nil, List.infix_nil]
  | cons c cs ih =>
    rw [List.infix_cons_iff, not_or, ← ih, ← drop_prefix_eq_none_iff, breakOn]
    cases dropPrefix? pattern (c :: cs) <;> simp

/-- A text is cut at the first place of the pattern. -/
theorem break_on_eq_some_iff (filled : pattern ≠ []) :
    breakOn pattern cs = some (before, after) ↔
      cs = before ++ pattern ++ after ∧ Precedes before pattern := by
  constructor
  · intro cut
    refine ⟨eq_of_break_on cut, ?_⟩
    induction cs generalizing before with
    | nil =>
      obtain ⟨rest, -, parts⟩ := Option.map_eq_some_iff.mp cut
      cases parts
      exact precedes_nil filled
    | cons c cs ih =>
      cases found : dropPrefix? pattern (c :: cs) with
      | some rest =>
        rw [breakOn, found] at cut
        cases cut
        exact precedes_nil filled
      | none =>
        rw [break_on_further found] at cut
        obtain ⟨⟨piece, rest⟩, later, parts⟩ := Option.map_eq_some_iff.mp cut
        cases parts
        rw [precedes_cons_iff rest filled, ← eq_of_break_on later]
        exact ⟨drop_prefix_eq_none_iff.mp found, ih later⟩
  · rintro ⟨rfl, precedes⟩
    induction before with
    | nil =>
      have found := (drop_prefix_eq_some_iff pattern (pattern ++ after) after).mpr rfl
      obtain ⟨p, ps, rfl⟩ := List.exists_cons_of_ne_nil filled
      rw [List.nil_append, List.cons_append, breakOn, ← List.cons_append, found]
    | cons c piece ih =>
      obtain ⟨not, later⟩ := (precedes_cons_iff after filled).mp precedes
      rw [List.cons_append, List.cons_append, break_on_further (drop_prefix_eq_none_iff.mpr not),
        ih later]
      rfl

/-- What is cut off at the first place of the pattern holds whatever stands behind a place of it. -/
theorem break_on_reaches (filled : pattern ≠ []) (front back : List Char) :
    ∃ before after, breakOn pattern (front ++ pattern ++ back) = some (before, after) ∧
      back <:+ after := by
  have held : pattern <:+: front ++ pattern ++ back := ⟨front, back, rfl⟩
  obtain ⟨⟨before, after⟩, cut⟩ :=
    Option.ne_none_iff_exists'.mp fun none => break_on_eq_none_iff.mp none held
  obtain ⟨whole, first⟩ := (break_on_eq_some_iff filled).mp cut
  have sizes := congrArg List.length whole
  have positive := List.length_pos_of_ne_nil filled
  have early : before.length ≤ front.length := by
    by_contra late
    -- A later cut has the given place of the pattern before it.
    have within : before ++ pattern.dropLast <+: front ++ pattern ++ back := by
      rw [whole, ← List.dropLast_append_getLast filled]
      simp
    have place : front ++ pattern <+: before ++ pattern.dropLast := by
      refine List.prefix_of_prefix_length_le (List.prefix_append _ _) within ?_
      simp only [List.length_append, List.length_dropLast]
      omega
    exact first ((List.suffix_append front pattern).isInfix.trans place.isInfix)
  refine ⟨before, after, cut, ?_⟩
  refine List.suffix_of_suffix_length_le (List.suffix_append _ back) ⟨_, whole.symm⟩ ?_
  simp only [List.length_append] at sizes
  omega

/-- A pattern that precedes stands nowhere but at the end. -/
theorem precedes_iff (filled : pattern ≠ []) :
    Precedes piece pattern ↔
      ∀ front back, piece ++ pattern = front ++ pattern ++ back → back = [] := by
  have whole : piece ++ pattern = piece ++ pattern.dropLast ++ [pattern.getLast filled] := by
    rw [List.append_assoc, List.dropLast_append_getLast filled]
  constructor
  · intro precedes front back same
    by_contra more
    refine precedes ⟨front, back.dropLast, ?_⟩
    rw [whole, ← List.dropLast_append_getLast more, ← List.append_assoc] at same
    exact (List.append_inj_left' same rfl).symm
  · intro only within
    obtain ⟨front, back, place⟩ := within
    have rest := only front (back ++ [pattern.getLast filled]) (by rw [whole, ← place]; simp)
    simp at rest

/-- A pattern whose first character does not come again in it has no place that reaches from a piece
into the next one, so it precedes whenever the piece does not hold it. -/
theorem precedes_of_absent {c : Char} {rest : List Char} (single : c ∉ rest)
    (absent : ¬ c :: rest <:+: piece) : Precedes piece (c :: rest) := by
  intro within
  rcases List.infix_append_iff_ne_nil.mp within with inside | behind | across
  · exact absent inside
  · have shorter := behind.length_le
    simp only [List.length_dropLast, List.length_cons] at shorter
    omega
  · rcases across with ⟨first, second, filled, more, whole, -, starts⟩
    obtain ⟨d, front, rfl⟩ := List.exists_cons_of_ne_nil filled
    obtain ⟨e, back, rfl⟩ := List.exists_cons_of_ne_nil more
    have head : e = c :=
      (List.cons_prefix_cons.mp (starts.trans (List.dropLast_prefix (c :: rest)))).1
    rw [List.cons_append, List.cons.injEq] at whole
    apply single
    rw [whole.2, head]
    exact List.mem_append_right front List.mem_cons_self

/-- A pattern without a character stands on one side of it. -/
theorem infix_around_iff {c : Char} {left right : List Char} (filled : pattern ≠ [])
    (without : c ∉ pattern) :
    pattern <:+: left ++ c :: right ↔ pattern <:+: left ∨ pattern <:+: right := by
  have across : ¬ ∃ first second, first ≠ [] ∧ second ≠ [] ∧ pattern = first ++ second ∧
      first <:+ left ∧ second <+: c :: right := by
    rintro ⟨first, second, -, more, rfl, -, starts⟩
    obtain ⟨d, rest, rfl⟩ := List.exists_cons_of_ne_nil more
    obtain ⟨rfl, -⟩ := List.cons_prefix_cons.mp starts
    exact without (by simp)
  have start : ¬ pattern <+: c :: right := by
    obtain ⟨d, rest, rfl⟩ := List.exists_cons_of_ne_nil filled
    intro starts
    exact without (by simp [(List.cons_prefix_cons.mp starts).1])
  rw [List.infix_append_iff_ne_nil, List.infix_cons_iff, or_iff_right start, or_iff_left across]

end ContractGraph.Text
