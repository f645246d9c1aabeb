import ContractGraph.Proofs.SourceFile.LineEnds

/-!
# What is left of a file with a header

When no comment opens with two stars before the header and its own comment has the marker, exactly
that comment and the newlines behind it are left out of the hash, whatever stands around them. Later
headers stay. What is left is hashed with a newline for every two-character line end, which is said
here by the lines between them and not by the pass over the characters.
-/

namespace ContractGraph.SourceFile

set_option autoImplicit false

/-- Both texts have the same lines, ended by two characters in the first and by a newline in the
second. -/
def IsUnified (text unified : List Char) : Prop :=
  ∃ lines : List (List Char), (∀ line ∈ lines, ¬ wideLineEnd <:+: line) ∧
    text = wideLineEnd.intercalate lines ∧ unified = ['\n'].intercalate lines

/-- A line stays as it is, also when a line end follows. -/
theorem unify_line {line : List Char} (whole : ¬ wideLineEnd <:+: line) :
    unifyLineEnds line = line ∧ ∀ cs, unifyLineEnds (line ++ wideLineEnd ++ cs) =
      line ++ '\n' :: unifyLineEnds cs := by
  induction line with
  | nil => exact ⟨rfl, fun cs => rfl⟩
  | cons c line ih =>
    rw [List.infix_cons_iff, not_or] at whole
    obtain ⟨start, later⟩ := whole
    obtain ⟨alone, before⟩ := ih later
    refine ⟨?_, ?_⟩
    · rw [unify_no_end start, alone]
    · intro cs
      have no_end : ¬ wideLineEnd <+: c :: (line ++ wideLineEnd ++ cs) := by
        intro starts
        apply start
        cases line with
        | nil =>
          -- A line end does not start with the last character of a line end.
          obtain ⟨-, second⟩ := List.cons_prefix_cons.mp starts
          exact absurd (List.cons_prefix_cons.mp second).1 (by decide)
        | cons d line =>
          obtain ⟨first, second⟩ := List.cons_prefix_cons.mp starts
          rw [← first, ← (List.cons_prefix_cons.mp second).1]
          exact ⟨line, rfl⟩
      rw [List.cons_append, List.cons_append, unify_no_end no_end, before]
      rfl

theorem unify_lines {lines : List (List Char)} (whole : ∀ line ∈ lines, ¬ wideLineEnd <:+: line) :
    unifyLineEnds (wideLineEnd.intercalate lines) = ['\n'].intercalate lines := by
  induction lines with
  | nil => rfl
  | cons line rest ih =>
    obtain ⟨first, later⟩ := List.forall_mem_cons.mp whole
    cases rest with
    | nil =>
      rw [List.intercalate_singleton, List.intercalate_singleton]
      exact (unify_line first).1
    | cons next rest =>
      rw [List.intercalate_cons_cons, List.intercalate_cons_cons, (unify_line first).2, ih later,
        List.append_assoc, List.singleton_append]

/-- Every text falls into lines. -/
theorem exists_lines (cs : List Char) :
    ∃ line rest, (∀ l ∈ line :: rest, ¬ wideLineEnd <:+: l) ∧
      cs = wideLineEnd.intercalate (line :: rest) := by
  fun_induction unifyLineEnds cs with
  | case1 cs ih =>
    obtain ⟨line, rest, whole, rfl⟩ := ih
    refine ⟨[], line :: rest, List.forall_mem_cons.mpr ⟨by decide, whole⟩, ?_⟩
    rw [List.intercalate_cons_cons]
    rfl
  | case2 c cs no_end ih =>
    obtain ⟨line, rest, whole, rfl⟩ := ih
    obtain ⟨first, later⟩ := List.forall_mem_cons.mp whole
    refine ⟨c :: line, rest, List.forall_mem_cons.mpr ⟨?_, later⟩, ?_⟩
    · rw [List.infix_cons_iff, not_or]
      refine ⟨?_, first⟩
      intro starts
      obtain ⟨carriage, starts⟩ := List.cons_prefix_cons.mp starts
      obtain ⟨more, rfl⟩ := starts
      cases rest with
      | nil => exact no_end more carriage.symm List.intercalate_singleton
      | cons next rest => exact no_end _ carriage.symm List.intercalate_cons_cons
    · cases rest with
      | nil => rw [List.intercalate_singleton, List.intercalate_singleton]
      | cons next rest => rw [List.intercalate_cons_cons, List.intercalate_cons_cons]; rfl
  | case3 => exact ⟨[], [], by decide, rfl⟩

/-- The pass over the characters is the one way to unify line ends. -/
theorem is_unified_iff {text unified : List Char} :
    IsUnified text unified ↔ unified = unifyLineEnds text := by
  constructor
  · intro given
    rcases given with ⟨lines, whole, rfl, rfl⟩
    exact (unify_lines whole).symm
  · intro same
    obtain ⟨line, rest, whole, lines⟩ := exists_lines text
    exact ⟨line :: rest, whole, lines, by rw [same, lines, unify_lines whole]⟩

/-- A comment with a marker, no earlier opening and no earlier closing is the header. -/
theorem exists_header {p x b : List Char} (unopened : ¬ headerOpening <:+: p)
    (marked : headerMarker <:+: x) (unclosed : ¬ headerClosing <:+: x) (newlines : Nat)
    (begun : b.head? ≠ some '\n') :
    ∃ h : Header, h.before = p ∧ h.after = b ∧ h.content =
      p ++ headerOpening ++ x ++ headerClosing ++ List.replicate newlines '\n' ++ b := by
  obtain ⟨⟨gap, inner⟩, cut⟩ :=
    Option.ne_none_iff_exists'.mp fun none => Text.break_on_eq_none_iff.mp none marked
  obtain ⟨rfl, marker_first⟩ := (Text.break_on_eq_some_iff (by decide)).mp cut
  have inside : ¬ headerClosing <:+: inner := fun closed =>
    unclosed (closed.trans (List.suffix_append (gap ++ headerMarker) inner).isInfix)
  have opening_first : Text.Precedes p headerOpening :=
    Text.precedes_of_absent (by decide) unopened
  have closing_first : Text.Precedes inner headerClosing :=
    Text.precedes_of_absent (by decide) inside
  refine ⟨⟨p, gap, inner, newlines, b, opening_first, marker_first, closing_first, begun⟩, rfl, rfl,
    ?_⟩
  simp [Header.content, Header.removed, Header.block]

/-- Of a file whose first comment with two stars has the marker, that comment and the newlines behind
it are left out of the hash, and every two-character line end of the rest is a newline. -/
theorem comment_left_out {p x b : String} (unopened : ¬ headerOpening <:+: p.toList)
    (marked : headerMarker <:+: x.toList) (unclosed : ¬ headerClosing <:+: x.toList)
    (newlines : Nat) (begun : b.toList.head? ≠ some '\n') :
    IsUnified (p ++ b).toList (hashedText
      (p ++ "/**" ++ x ++ "*/" ++ String.ofList (List.replicate newlines '\n') ++ b)).toList := by
  obtain ⟨h, before, after, content⟩ := exists_header unopened marked unclosed newlines begun
  have whole : (p ++ "/**" ++ x ++ "*/" ++ String.ofList (List.replicate newlines '\n') ++
      b).toList = h.content := by
    simp only [String.toList_append, String.toList_ofList]
    exact content.symm
  rw [is_unified_iff, hashedText, whole, h.dropped, before, after, String.toList_ofList,
    String.toList_append]

/-- Half an opening stands before the header, half of one and half a closing stand in its comment,
and another header stands behind it. -/
theorem comment_left_out_of_two_headers :
    ¬ headerOpening <:+: "x\r\n/*".toList ∧ headerMarker <:+: "/ @uif *".toList ∧
      ¬ headerClosing <:+: "/ @uif *".toList ∧ "\r\n/** @uif */\ny".toList.head? ≠ some '\n' ∧
      hashedText "x\r\n/*/**/ @uif **/\n\n\r\n/** @uif */\ny" = "x\n/*\n/** @uif */\ny" ∧
      IsUnified "x\r\n/*\r\n/** @uif */\ny".toList
        (hashedText "x\r\n/*/**/ @uif **/\n\n\r\n/** @uif */\ny").toList := by
  have unopened : ¬ headerOpening <:+: "x\r\n/*".toList := by decide
  have marked : headerMarker <:+: "/ @uif *".toList := by decide
  have unclosed : ¬ headerClosing <:+: "/ @uif *".toList := by decide
  have begun : "\r\n/** @uif */\ny".toList.head? ≠ some '\n' := by decide
  exact ⟨unopened, marked, unclosed, begun, by decide,
    comment_left_out unopened marked unclosed 2 begun⟩

end ContractGraph.SourceFile
