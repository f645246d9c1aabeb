import ContractGraph.SourceFile
import ContractGraph.Proofs.Text.Places
import Mathlib.Data.List.DropRight

/-!
# Headers of source files

A text has a header when an opening, a marker after it and a closing after that stand in it. It is
then taken apart in one way: the header starts at the first opening of the text, whatever comment
begins there, so an earlier comment and the code behind it go with the header. The header is one
comment block exactly when no comment is closed between its opening and its marker.
-/

namespace ContractGraph.SourceFile

set_option autoImplicit false

/-- What the pattern of a header matches. -/
def IsHeaderText (m : List Char) : Prop :=
  ∃ gap inner newlines, m =
    headerOpening ++ gap ++ headerMarker ++ inner ++ headerClosing ++ List.replicate newlines '\n'

/-- A text that is taken apart at its header: up to the first opening, from there to the first marker
behind it, from there to the first closing behind that, and over all newlines that follow. -/
structure Header where
  before : List Char
  gap : List Char
  inner : List Char
  newlines : Nat
  after : List Char
  opening_first : Text.Precedes before headerOpening
  marker_first : Text.Precedes gap headerMarker
  closing_first : Text.Precedes inner headerClosing
  newlines_all : after.head? ≠ some '\n'

namespace Header

/-- From the opening to the closing. -/
def block (h : Header) : List Char :=
  headerOpening ++ h.gap ++ headerMarker ++ h.inner ++ headerClosing

def removed (h : Header) : List Char := h.block ++ List.replicate h.newlines '\n'

def content (h : Header) : List Char := h.before ++ h.removed ++ h.after

theorem removed_is_header (h : Header) : IsHeaderText h.removed := ⟨h.gap, h.inner, h.newlines, rfl⟩

end Header

/-- What stands before the header and what stands after it, its newlines included. -/
def cutHeader (cs : List Char) : Option (List Char × List Char) := do
  let (before, opened) ← Text.breakOn headerOpening cs
  let (_, marked) ← Text.breakOn headerMarker opened
  let (_, after) ← Text.breakOn headerClosing marked
  return (before, after)

theorem split_header_eq (cs : List Char) :
    splitHeader cs =
      (cutHeader cs).map fun parts => (parts.1, parts.2.dropWhile (· == '\n')) := by
  simp only [splitHeader, cutHeader, Option.bind_eq_bind, Option.pure_def, Option.map_bind,
    Function.comp_def, Option.map_some]

theorem drop_no_newline {after : List Char} (all : after.head? ≠ some '\n') :
    after.dropWhile (· == '\n') = after := by
  cases after with
  | nil => rfl
  | cons c rest =>
    have other : c ≠ '\n' := fun same => all (congrArg some same)
    simp [other]

theorem drop_newlines {newlines : Nat} {after : List Char} (all : after.head? ≠ some '\n') :
    (List.replicate newlines '\n' ++ after).dropWhile (· == '\n') = after := by
  induction newlines with
  | zero => exact drop_no_newline all
  | succ n ih => simpa [List.replicate_succ] using ih

/-- A text is cut where its header is. -/
theorem Header.cut_content (h : Header) :
    cutHeader h.content = some (h.before, List.replicate h.newlines '\n' ++ h.after) := by
  have whole : h.content = h.before ++ headerOpening ++ (h.gap ++ headerMarker ++
      (h.inner ++ headerClosing ++ (List.replicate h.newlines '\n' ++ h.after))) := by
    simp [content, removed, block]
  have cut : ∀ {pattern piece : List Char} (rest : List Char), Text.Precedes piece pattern →
      pattern ≠ [] → Text.breakOn pattern (piece ++ pattern ++ rest) = some (piece, rest) :=
    fun rest first filled => (Text.break_on_eq_some_iff filled).mpr ⟨rfl, first⟩
  simp only [cutHeader, whole, cut _ h.opening_first (by decide),
    cut _ h.marker_first (by decide), cut _ h.closing_first (by decide), Option.bind_eq_bind,
    Option.bind_some]
  rfl

theorem Header.dropped (h : Header) : dropHeader h.content = h.before ++ h.after := by
  rw [dropHeader, split_header_eq, h.cut_content, Option.map_some, drop_newlines h.newlines_all]

/-- Newlines and what stands behind them. -/
theorem exists_newlines (cs : List Char) :
    ∃ newlines, cs = List.replicate newlines '\n' ++ cs.dropWhile (· == '\n') := by
  refine ⟨(cs.takeWhile (· == '\n')).length, ?_⟩
  have all : cs.takeWhile (· == '\n') = List.replicate (cs.takeWhile (· == '\n')).length '\n' := by
    refine List.eq_replicate_iff.mpr ⟨rfl, fun c member => ?_⟩
    simpa using List.mem_takeWhile_imp member
  rw [← all, List.takeWhile_append_dropWhile]

theorem head_of_dropped (cs : List Char) : (cs.dropWhile (· == '\n')).head? ≠ some '\n' := by
  intro starts
  have other := List.head?_dropWhile_not (· == '\n') cs
  rw [starts] at other
  exact absurd other (by decide)

theorem exists_of_cut {cs : List Char} (found : (cutHeader cs).isSome) :
    ∃ h : Header, h.content = cs := by
  obtain ⟨parts, cut⟩ := Option.isSome_iff_exists.mp found
  obtain ⟨⟨before, opened⟩, opening, cut⟩ := Option.bind_eq_some_iff.mp cut
  obtain ⟨⟨gap, marked⟩, marker, cut⟩ := Option.bind_eq_some_iff.mp cut
  obtain ⟨⟨inner, rest⟩, closing, -⟩ := Option.bind_eq_some_iff.mp cut
  obtain ⟨whole, opening_first⟩ := (Text.break_on_eq_some_iff (by decide)).mp opening
  obtain ⟨whole', marker_first⟩ := (Text.break_on_eq_some_iff (by decide)).mp marker
  obtain ⟨whole'', closing_first⟩ := (Text.break_on_eq_some_iff (by decide)).mp closing
  obtain ⟨newlines, lines⟩ := exists_newlines rest
  refine ⟨⟨before, gap, inner, newlines, rest.dropWhile (· == '\n'), opening_first, marker_first,
    closing_first, head_of_dropped rest⟩, ?_⟩
  rw [whole, whole', whole'']
  conv_rhs => rw [lines]
  simp [Header.content, Header.removed, Header.block]

/-- A text has a header exactly when the pattern matches somewhere in it. -/
theorem exists_header_iff {cs : List Char} :
    (∃ h : Header, h.content = cs) ↔ ∃ m, IsHeaderText m ∧ m <:+: cs := by
  constructor
  · rintro ⟨h, rfl⟩
    exact ⟨h.removed, h.removed_is_header, h.before, h.after, rfl⟩
  · rintro ⟨_, ⟨gap, inner, newlines, rfl⟩, front, back, rfl⟩
    obtain ⟨before, _, opening, front', rfl⟩ := Text.break_on_reaches
      (show headerOpening ≠ [] by decide) front
      (gap ++ headerMarker ++ (inner ++ headerClosing ++ (List.replicate newlines '\n' ++ back)))
    obtain ⟨gap', _, marker, front'', rfl⟩ := Text.break_on_reaches
      (show headerMarker ≠ [] by decide) (front' ++ gap)
      (inner ++ headerClosing ++ (List.replicate newlines '\n' ++ back))
    obtain ⟨inner', after, closing, -⟩ := Text.break_on_reaches
      (show headerClosing ≠ [] by decide) (front'' ++ inner) (List.replicate newlines '\n' ++ back)
    simp only [List.append_assoc] at opening marker closing ⊢
    apply exists_of_cut
    simp only [cutHeader, opening, marker, closing, Option.bind_eq_bind, Option.bind_some]
    rfl

/-- Without its last newlines, the text holds a closing at its end and nowhere else. -/
def IsOneBlock (removed : List Char) : Prop :=
  headerClosing <:+ removed.rdropWhile (· == '\n') ∧
    ∀ front back, removed.rdropWhile (· == '\n') = front ++ headerClosing ++ back → back = []

theorem Header.removed_without_newlines (h : Header) :
    h.removed.rdropWhile (· == '\n') = h.block := by
  rw [List.rdropWhile, removed, List.reverse_append, List.reverse_replicate, drop_newlines,
    List.reverse_reverse]
  simp [block, headerClosing]

/-- A closing of a block that stands before its end stands before the marker, as the last one is the
first behind the marker. -/
theorem Header.is_one_block_iff (h : Header) :
    IsOneBlock h.removed ↔ ¬ headerClosing <:+: headerOpening ++ h.gap := by
  have filled : headerClosing ≠ [] := by decide
  have last : headerClosing <:+ h.block := List.suffix_append _ _
  have behind : ¬ headerClosing <:+: h.inner ++ headerClosing.dropLast := h.closing_first
  -- No closing holds the first or the last character of the marker, so none reaches across it.
  have around : headerClosing <:+: headerOpening ++ h.gap ++ headerMarker ++ h.inner ++
      headerClosing.dropLast ↔ headerClosing <:+: headerOpening ++ h.gap ∨
        headerClosing <:+: ['u', 'i', 'f'] ++ (h.inner ++ headerClosing.dropLast) := by
    rw [← Text.infix_around_iff filled (show '@' ∉ headerClosing by decide)]
    simp [headerMarker]
  have tail : headerClosing <:+: ['u', 'i', 'f'] ++ (h.inner ++ headerClosing.dropLast) ↔
      headerClosing <:+: h.inner ++ headerClosing.dropLast := by
    have start : ¬ headerClosing <:+: ['u', 'i'] := by decide
    exact (Text.infix_around_iff filled (show 'f' ∉ headerClosing by decide)).trans
      (or_iff_right start)
  rw [IsOneBlock, h.removed_without_newlines, and_iff_right last, block,
    ← Text.precedes_iff filled, Text.Precedes, around, tail, or_iff_left behind]

/-- What the hash of a file leaves out is the text of a header, and it is one comment block exactly
when no comment is closed between the first opening of the file and the first marker behind it. -/
theorem removed_is_one_block_iff (content : String) :
    ((∃ h : Header, h.content = content.toList) ↔
        ∃ m, IsHeaderText m ∧ m <:+: content.toList) ∧
      ∀ h : Header, h.content = content.toList →
        IsHeaderText h.removed ∧
          hashedText content = String.ofList (unifyLineEnds (h.before ++ h.after)) ∧
          (IsOneBlock h.removed ↔ ¬ headerClosing <:+: headerOpening ++ h.gap) := by
  refine ⟨exists_header_iff, ?_⟩
  intro h whole
  refine ⟨h.removed_is_header, ?_, h.is_one_block_iff⟩
  rw [hashedText, ← whole, h.dropped]

/-- A comment in front of the header is left out with the code that stands between them. -/
theorem earlier_comment_left_out :
    ∃ h : Header, h.content = "/** a */\nx\n/** @uif */\ny".toList ∧
      h.removed = "/** a */\nx\n/** @uif */\n".toList ∧ ¬ IsOneBlock h.removed ∧
      hashedText "/** a */\nx\n/** @uif */\ny" = "y" := by
  let h : Header := ⟨[], " a */\nx\n/** ".toList, " ".toList, 1, "y".toList, by decide, by decide,
    by decide, by decide⟩
  refine ⟨h, by decide, by decide, ?_, by decide⟩
  rw [h.is_one_block_iff, not_not]
  decide

end ContractGraph.SourceFile
