/-!
# Pieces of a text

Cutting a text at a separator, around the first place of a pattern, and off a suffix, over lists
of characters. Pieces join back to the text they were cut from.
-/

namespace ContractGraph.Text

set_option autoImplicit false

/-- The pieces between separators; there is always at least one. -/
def splitAt (sep : Char) : List Char → List (List Char)
  | [] => [[]]
  | c :: cs =>
    if c = sep then [] :: splitAt sep cs
    else
      match splitAt sep cs with
      | [] => [[c]]
      | piece :: rest => (c :: piece) :: rest

theorem split_at_ne_nil (sep : Char) (cs : List Char) : splitAt sep cs ≠ [] := by
  cases cs with
  | nil => simp [splitAt]
  | cons c cs =>
    unfold splitAt
    split
    · simp
    · split <;> simp

/-- Pieces with one separator between two of them. -/
def join (sep : Char) : List (List Char) → List Char
  | [] => []
  | [piece] => piece
  | piece :: rest => piece ++ sep :: join sep rest

/-- The text after a prefix. -/
def dropPrefix? : List Char → List Char → Option (List Char)
  | [], cs => some cs
  | _ :: _, [] => none
  | p :: ps, c :: cs => if p = c then dropPrefix? ps cs else none

theorem drop_prefix_eq_some_iff (pre cs rest : List Char) :
    dropPrefix? pre cs = some rest ↔ cs = pre ++ rest := by
  induction pre generalizing cs with
  | nil => simp [dropPrefix?]
  | cons p ps ih =>
    cases cs with
    | nil => simp [dropPrefix?]
    | cons c cs =>
      by_cases same : p = c
      · simp [dropPrefix?, same, ih]
      · simp [dropPrefix?, same, Ne.symm same]

/-- What stands before the first place of a pattern and what stands after it. -/
def breakOn (pattern : List Char) : List Char → Option (List Char × List Char)
  | [] => (dropPrefix? pattern []).map fun rest => ([], rest)
  | c :: cs =>
    match dropPrefix? pattern (c :: cs) with
    | some rest => some ([], rest)
    | none => (breakOn pattern cs).map fun parts => (c :: parts.1, parts.2)

theorem eq_of_break_on {pattern cs before after : List Char}
    (h : breakOn pattern cs = some (before, after)) : cs = before ++ pattern ++ after := by
  induction cs generalizing before with
  | nil =>
    simp only [breakOn, Option.map_eq_some_iff, Prod.mk.injEq] at h
    obtain ⟨rest, found, rfl, rfl⟩ := h
    simpa using (drop_prefix_eq_some_iff pattern [] rest).1 found
  | cons c cs ih =>
    unfold breakOn at h
    split at h
    · next rest found =>
      simp only [Option.some.injEq, Prod.mk.injEq] at h
      obtain ⟨rfl, rfl⟩ := h
      simpa using (drop_prefix_eq_some_iff pattern (c :: cs) rest).1 found
    · simp only [Option.map_eq_some_iff, Prod.mk.injEq] at h
      obtain ⟨⟨b, a⟩, found, rfl, rfl⟩ := h
      simp [ih found]

/-- The text before a suffix. -/
def dropSuffix? (suffix cs : List Char) : Option (List Char) :=
  (dropPrefix? suffix.reverse cs.reverse).map List.reverse

theorem drop_suffix_eq_some_iff (suffix cs rest : List Char) :
    dropSuffix? suffix cs = some rest ↔ cs = rest ++ suffix := by
  simp only [dropSuffix?, Option.map_eq_some_iff, drop_prefix_eq_some_iff]
  constructor
  · rintro ⟨r, h, rfl⟩
    simpa using congrArg List.reverse h
  · intro h
    exact ⟨rest.reverse, by simp [h], by simp⟩

/-- A text and the one newline that may end it. -/
def splitFinalNewline (cs : List Char) : List Char × List Char :=
  match dropSuffix? ['\n'] cs with
  | some body => (body, ['\n'])
  | none => (cs, [])

theorem split_final_newline_append (cs : List Char) :
    (splitFinalNewline cs).1 ++ (splitFinalNewline cs).2 = cs := by
  unfold splitFinalNewline
  split
  · next body h => exact ((drop_suffix_eq_some_iff _ _ _).1 h).symm
  · simp

end ContractGraph.Text
