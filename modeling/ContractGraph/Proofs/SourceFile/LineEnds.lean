import ContractGraph.Proofs.SourceFile.Header
import Mathlib.Data.List.Basic

/-!
# Line ends of source files

A file without carriage returns is hashed like the file with two-character line ends, unless newlines
follow its header: of the two-character line ends behind a header none is taken for a newline, so they
stay in the text that is hashed.
-/

namespace ContractGraph.SourceFile

set_option autoImplicit false

variable {pattern cs : List Char}

/-- Newlines become two-character line ends. -/
def widenLineEnds (cs : List Char) : List Char :=
  cs.flatMap fun c => if c = '\n' then ['\r', '\n'] else [c]

theorem widen_newline (cs : List Char) :
    widenLineEnds ('\n' :: cs) = '\r' :: '\n' :: widenLineEnds cs := rfl

theorem widen_cons {c : Char} (other : c ≠ '\n') (cs : List Char) :
    widenLineEnds (c :: cs) = c :: widenLineEnds cs := by
  simp [widenLineEnds, other]

theorem widen_append (as bs : List Char) :
    widenLineEnds (as ++ bs) = widenLineEnds as ++ widenLineEnds bs :=
  List.flatMap_append

def wideLineEnd : List Char := ['\r', '\n']

/-- A character at which no two-character line end starts stays. -/
theorem unify_no_end {c : Char} {cs : List Char} (no_end : ¬ wideLineEnd <+: c :: cs) :
    unifyLineEnds (c :: cs) = c :: unifyLineEnds cs := by
  rw [unifyLineEnds]
  intro rest carriage newline
  apply no_end
  exact ⟨rest, by rw [carriage, newline]; rfl⟩

theorem unify_cons {c : Char} (other : c ≠ '\r') (cs : List Char) :
    unifyLineEnds (c :: cs) = c :: unifyLineEnds cs := by
  apply unify_no_end
  intro starts
  exact other (List.cons_prefix_cons.mp starts).1.symm

/-- Without carriage returns, unifying the line ends undoes widening them. -/
theorem unify_widen (clear : '\r' ∉ cs) : unifyLineEnds (widenLineEnds cs) = cs := by
  induction cs with
  | nil => rfl
  | cons c cs ih =>
    rw [List.mem_cons, not_or] at clear
    by_cases newline : c = '\n'
    · subst newline
      rw [widen_newline, unifyLineEnds, ih clear.2]
    · rw [widen_cons newline, unify_cons (Ne.symm clear.1), ih clear.2]

theorem unify_of_clear (clear : '\r' ∉ cs) : unifyLineEnds cs = cs := by
  induction cs with
  | nil => rfl
  | cons c cs ih =>
    rw [List.mem_cons, not_or] at clear
    rw [unify_cons (Ne.symm clear.1), ih clear.2]

theorem head_of_widened (cs : List Char) : (widenLineEnds cs).head? ≠ some '\n' := by
  cases cs with
  | nil => simp [widenLineEnds]
  | cons c cs =>
    by_cases newline : c = '\n'
    · subst newline
      simp [widen_newline]
    · simp [widen_cons newline, newline]

/-- No character of the pattern ends a line. -/
def OnOneLine (pattern : List Char) : Prop := ∀ c ∈ pattern, c ≠ '\n' ∧ c ≠ '\r'

instance (pattern : List Char) : Decidable (OnOneLine pattern) :=
  List.decidableBAll (fun c => c ≠ '\n' ∧ c ≠ '\r') pattern

/-- A pattern of one line is dropped alike. -/
theorem drop_prefix_widen (line : OnOneLine pattern) :
    Text.dropPrefix? pattern (widenLineEnds cs) =
      (Text.dropPrefix? pattern cs).map widenLineEnds := by
  induction pattern generalizing cs with
  | nil => rfl
  | cons p ps ih =>
    obtain ⟨⟨feed, carriage⟩, rest⟩ := List.forall_mem_cons.mp line
    cases cs with
    | nil => rfl
    | cons c cs =>
      by_cases newline : c = '\n'
      · subst newline
        rw [widen_newline, Text.dropPrefix?, Text.dropPrefix?, if_neg carriage, if_neg feed]
        rfl
      · rw [widen_cons newline, Text.dropPrefix?, Text.dropPrefix?, ih rest]
        split <;> rfl

/-- A pattern of one line is found in the same place. -/
theorem break_on_widen (filled : pattern ≠ []) (line : OnOneLine pattern) :
    Text.breakOn pattern (widenLineEnds cs) =
      (Text.breakOn pattern cs).map fun parts => (widenLineEnds parts.1, widenLineEnds parts.2) := by
  have no_end : ∀ {c rest}, c = '\n' ∨ c = '\r' → Text.dropPrefix? pattern (c :: rest) = none := by
    intro c rest ends
    obtain ⟨p, ps, rfl⟩ := List.exists_cons_of_ne_nil filled
    obtain ⟨⟨feed, carriage⟩, -⟩ := List.forall_mem_cons.mp line
    rw [Text.dropPrefix?, if_neg]
    rintro rfl
    exact ends.elim feed carriage
  induction cs with
  | nil =>
    obtain ⟨p, ps, rfl⟩ := List.exists_cons_of_ne_nil filled
    rfl
  | cons c cs ih =>
    by_cases newline : c = '\n'
    · subst newline
      rw [widen_newline, Text.break_on_further (no_end (.inr rfl)),
        Text.break_on_further (no_end (.inl rfl)), Text.break_on_further (no_end (.inl rfl)), ih]
      simp only [Option.map_map]
      rfl
    · have same : Text.dropPrefix? pattern (widenLineEnds (c :: cs)) = _ := drop_prefix_widen line
      rw [widen_cons newline] at same ⊢
      cases found : Text.dropPrefix? pattern (c :: cs) with
      | some rest =>
        rw [found] at same
        rw [Text.breakOn, same, Text.breakOn, found]
        rfl
      | none =>
        rw [found] at same
        rw [Text.break_on_further same, Text.break_on_further found, ih, Option.map_map,
          Option.map_map]
        simp only [Function.comp_def, widen_cons newline]

/-- The header is cut off in the same place, whatever the line ends. -/
theorem cut_header_widen (cs : List Char) :
    cutHeader (widenLineEnds cs) =
      (cutHeader cs).map fun parts => (widenLineEnds parts.1, widenLineEnds parts.2) := by
  have opening : ∀ cs, Text.breakOn headerOpening (widenLineEnds cs) = _ :=
    fun cs => break_on_widen (by decide) (by decide)
  have marker : ∀ cs, Text.breakOn headerMarker (widenLineEnds cs) = _ :=
    fun cs => break_on_widen (by decide) (by decide)
  have closing : ∀ cs, Text.breakOn headerClosing (widenLineEnds cs) = _ :=
    fun cs => break_on_widen (by decide) (by decide)
  simp only [cutHeader, opening, marker, closing, Option.bind_eq_bind, Option.bind_map,
    Option.map_bind, Function.comp_def, Option.pure_def, Option.map_some]

/-- Two-character line ends behind a header stay. -/
theorem Header.dropped_widened (h : Header) :
    dropHeader (widenLineEnds h.content) =
      widenLineEnds (h.before ++ List.replicate h.newlines '\n' ++ h.after) := by
  rw [dropHeader, split_header_eq, cut_header_widen, h.cut_content, Option.map_some,
    Option.map_some, drop_no_newline (head_of_widened _)]
  simp only [widen_append, List.append_assoc]

/-- The two hashed texts differ in the newlines behind the header. -/
theorem Header.widened_alike_iff (h : Header) (clear : '\r' ∉ h.content) :
    unifyLineEnds (dropHeader (widenLineEnds h.content)) = unifyLineEnds (dropHeader h.content) ↔
      h.newlines = 0 := by
  simp only [content, removed, List.mem_append, not_or] at clear
  obtain ⟨⟨before, -, newlines⟩, after⟩ := clear
  have wide : '\r' ∉ h.before ++ List.replicate h.newlines '\n' ++ h.after := by
    simp only [List.mem_append, not_or]
    exact ⟨⟨before, newlines⟩, after⟩
  have plain : '\r' ∉ h.before ++ h.after := by
    simp only [List.mem_append, not_or]
    exact ⟨before, after⟩
  rw [h.dropped_widened, h.dropped, unify_widen wide, unify_of_clear plain,
    List.append_cancel_right_eq, List.append_right_eq_self, List.replicate_eq_nil_iff]

theorem dropped_of_none (none : ¬ ∃ h : Header, h.content = cs) :
    dropHeader cs = cs ∧ dropHeader (widenLineEnds cs) = widenLineEnds cs := by
  have uncut : cutHeader cs = .none :=
    Option.not_isSome_iff_eq_none.mp fun found => none (exists_of_cut found)
  simp [dropHeader, split_header_eq, cut_header_widen, uncut]

/-- A file without carriage returns is hashed like the file with two-character line ends, exactly
when no newline follows its header. -/
theorem line_ends_ignored_iff {content : String} (clear : '\r' ∉ content.toList) :
    hashedText (String.ofList (widenLineEnds content.toList)) = hashedText content ↔
      ∀ h : Header, h.content = content.toList → h.newlines = 0 := by
  rw [hashedText, hashedText, String.ofList_inj, String.toList_ofList]
  constructor
  · intro same h whole
    rw [← whole] at clear same
    exact (h.widened_alike_iff clear).mp same
  · intro single
    by_cases found : ∃ h : Header, h.content = content.toList
    · obtain ⟨h, whole⟩ := found
      have none := single h whole
      rw [← whole] at clear ⊢
      exact (h.widened_alike_iff clear).mpr none
    · obtain ⟨plain, wide⟩ := dropped_of_none found
      rw [plain, wide, unify_widen clear, unify_of_clear clear]

/-- Code on the line of the header. -/
theorem line_ends_ignored_iff_of_inline :
    '\r' ∉ "/** @uif */ A\nB\n".toList ∧
      hashedText "/** @uif */ A\r\nB\r\n" = hashedText "/** @uif */ A\nB\n" ∧
      ∀ h : Header, h.content = "/** @uif */ A\nB\n".toList → h.newlines = 0 := by
  have clear : '\r' ∉ "/** @uif */ A\nB\n".toList := by decide
  have same : hashedText "/** @uif */ A\r\nB\r\n" = hashedText "/** @uif */ A\nB\n" := by decide
  exact ⟨clear, same, (line_ends_ignored_iff clear).mp same⟩

/-- The newline behind the header is left out, the two-character line end is not. -/
theorem wide_line_end_kept :
    '\r' ∉ "/** @uif */\nA".toList ∧
      String.ofList (widenLineEnds "/** @uif */\nA".toList) = "/** @uif */\r\nA" ∧
      hashedText "/** @uif */\nA" = "A" ∧ hashedText "/** @uif */\r\nA" = "\nA" := by
  decide

end ContractGraph.SourceFile
