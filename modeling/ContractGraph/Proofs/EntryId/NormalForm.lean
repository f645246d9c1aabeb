import ContractGraph.Proofs.Text.Segments

/-!
# Normal forms of entry ids

A normal form is its own normal form. The stack of segments keeps what makes it so: no segment is
empty or a single dot, and double dots stand only at the front of a relative path, so that putting
the segments on a stack once more changes nothing.
-/

namespace ContractGraph.Text

set_option autoImplicit false

theorem split_at_pieces {sep : Char} {cs piece : List Char} (member : piece ∈ splitAt sep cs) :
    sep ∉ piece ∧ ∀ c ∈ piece, c ∈ cs := by
  induction cs generalizing piece with
  | nil =>
    have empty : piece = [] := List.mem_singleton.mp member
    subst empty
    simp
  | cons c cs ih =>
    rw [splitAt] at member
    split at member
    · rcases List.mem_cons.mp member with rfl | later
      · simp
      · exact ⟨(ih later).1, fun d here => List.mem_cons_of_mem c ((ih later).2 d here)⟩
    · next other =>
      rcases pieces : splitAt sep cs with _ | ⟨first, rest⟩
      · exact absurd pieces (split_at_ne_nil sep cs)
      · rw [pieces] at member ih
        rcases List.mem_cons.mp member with rfl | later
        · obtain ⟨absent, within⟩ := ih List.mem_cons_self
          refine ⟨?_, ?_⟩
          · intro here
            rcases List.mem_cons.mp here with same | here
            · exact other same.symm
            · exact absent here
          · intro d here
            rcases List.mem_cons.mp here with rfl | here
            · exact List.mem_cons_self
            · exact List.mem_cons_of_mem c (within d here)
        · obtain ⟨absent, within⟩ := ih (List.mem_cons_of_mem first later)
          exact ⟨absent, fun d here => List.mem_cons_of_mem c (within d here)⟩

/-- Pieces without the separator are cut again where they were joined. -/
theorem split_at_join {sep : Char} {pieces : List (List Char)} (some : pieces ≠ [])
    (clear : ∀ piece ∈ pieces, sep ∉ piece) : splitAt sep (join sep pieces) = pieces := by
  induction pieces with
  | nil => exact absurd rfl some
  | cons piece rest ih =>
    have absent := clear piece List.mem_cons_self
    cases rest with
    | nil => exact split_at_of_not_mem absent
    | cons next more =>
      have others := ih (List.cons_ne_nil next more) fun p member =>
        clear p (List.mem_cons_of_mem piece member)
      rw [join, split_at_append, split_at_of_not_mem absent, others, List.singleton_append]
      exact fun none => List.cons_ne_nil next more none

/-- Each separator in front gives an empty piece. -/
theorem split_at_replicate (sep : Char) (n : Nat) (cs : List Char) :
    splitAt sep (List.replicate n sep ++ cs) = List.replicate n [] ++ splitAt sep cs := by
  induction n with
  | zero => rfl
  | succ n ih =>
    rw [List.replicate_succ, List.cons_append, splitAt, if_pos rfl, ih]
    rfl

theorem mem_of_mem_join {sep c : Char} {pieces : List (List Char)} (member : c ∈ join sep pieces) :
    c = sep ∨ ∃ piece ∈ pieces, c ∈ piece := by
  induction pieces with
  | nil => cases member
  | cons piece rest ih =>
    cases rest with
    | nil => exact .inr ⟨piece, List.mem_cons_self, member⟩
    | cons next more =>
      rcases List.mem_append.mp member with here | later
      · exact .inr ⟨piece, List.mem_cons_self, here⟩
      · rcases List.mem_cons.mp later with same | later
        · exact .inl same
        · rcases ih later with same | ⟨p, listed, here⟩
          · exact .inl same
          · exact .inr ⟨p, List.mem_cons_of_mem piece listed, here⟩

theorem mem_join_of_mem {sep c : Char} {piece : List Char} {pieces : List (List Char)}
    (listed : piece ∈ pieces) (here : c ∈ piece) : c ∈ join sep pieces := by
  induction pieces with
  | nil => cases listed
  | cons first rest ih =>
    cases rest with
    | nil =>
      rw [List.mem_singleton.mp listed] at here
      exact here
    | cons next more =>
      rcases List.mem_cons.mp listed with rfl | later
      · exact List.mem_append_left _ here
      · exact List.mem_append_right first (List.mem_cons_of_mem sep (ih later))

end ContractGraph.Text

namespace ContractGraph.EntryId

set_option autoImplicit false

/-- What a stack of segments keeps, the nearest segment first. -/
def Settled (rooted : Bool) : List (List Char) → Prop
  | [] => True
  | top :: below => top ≠ [] ∧ top ≠ ['.'] ∧
      (top = ['.', '.'] → rooted = false ∧ ∀ segment ∈ below, segment = ['.', '.']) ∧
      Settled rooted below

variable {rooted : Bool} {stack segments : List (List Char)} {segment : List Char}

theorem push_settled (settled : Settled rooted stack) (segment : List Char) :
    Settled rooted (pushSegment rooted stack segment) := by
  unfold pushSegment
  split
  · exact settled
  · next counts =>
    obtain ⟨filled, noDot⟩ := not_or.mp counts
    split
    · next up =>
      cases stack with
      | nil =>
        cases rooted with
        | true => exact trivial
        | false => exact ⟨filled, noDot, fun _ => ⟨rfl, by simp⟩, trivial⟩
      | cons top below =>
        by_cases again : top = ['.', '.']
        · obtain ⟨relative, all⟩ := settled.2.2.1 again
          simp only [again, if_true]
          refine ⟨filled, noDot, fun _ => ⟨relative, ?_⟩, again ▸ settled⟩
          intro other member
          rcases List.mem_cons.mp member with rfl | later
          · rfl
          · exact all other later
        · simp only [again, if_false]
          exact settled.2.2.2
    · next down => exact ⟨filled, noDot, fun up => absurd up down, settled⟩

theorem push_of_settled (settled : Settled rooted (segment :: stack)) :
    pushSegment rooted stack segment = segment :: stack := by
  obtain ⟨filled, noDot, front, -⟩ := settled
  unfold pushSegment
  rw [if_neg (not_or.mpr ⟨filled, noDot⟩)]
  by_cases up : segment = ['.', '.']
  · obtain ⟨relative, all⟩ := front up
    rw [if_pos up]
    cases stack with
    | nil => simp [relative]
    | cons top below =>
      have again : top = ['.', '.'] := all top List.mem_cons_self
      simp only [again, if_true]
  · rw [if_neg up]

theorem collapse_settled (rooted : Bool) (segments : List (List Char)) :
    Settled rooted (collapse rooted segments).reverse := by
  have onwards : ∀ stack, Settled rooted stack →
      Settled rooted (segments.foldl (pushSegment rooted) stack) := by
    induction segments with
    | nil => exact fun stack settled => settled
    | cons segment rest ih => exact fun stack settled => ih _ (push_settled settled segment)
  rw [collapse, List.reverse_reverse]
  exact onwards [] trivial

theorem collapse_of_settled (settled : Settled rooted stack) :
    collapse rooted stack.reverse = stack.reverse := by
  have whole : stack.reverse.foldl (pushSegment rooted) [] = stack := by
    induction stack with
    | nil => rfl
    | cons segment below ih =>
      rw [List.reverse_cons, List.foldl_append, ih settled.2.2.2]
      exact push_of_settled settled
  rw [collapse, whole]

theorem mem_of_mem_push {other : List Char} (member : other ∈ pushSegment rooted stack segment) :
    other = segment ∨ other ∈ stack := by
  unfold pushSegment at member
  split at member
  · exact .inr member
  · split at member
    · split at member
      · split at member
        · cases member
        · exact .inl (List.mem_singleton.mp member)
      · split at member
        · exact List.mem_cons.mp member
        · exact .inr (List.mem_cons_of_mem _ member)
    · exact List.mem_cons.mp member

/-- Nothing comes on the stack that was not among the segments. -/
theorem mem_of_mem_collapse (member : segment ∈ collapse rooted segments) : segment ∈ segments := by
  have onwards : ∀ (given stack : List (List Char)),
      segment ∈ given.foldl (pushSegment rooted) stack → segment ∈ given ∨ segment ∈ stack := by
    intro given
    induction given with
    | nil => exact fun stack here => .inr here
    | cons next rest ih =>
      intro stack here
      rcases ih _ here with later | pushed
      · exact .inl (List.mem_cons_of_mem next later)
      · rcases mem_of_mem_push pushed with rfl | before
        · exact .inl List.mem_cons_self
        · exact .inr before
  rw [collapse, List.mem_reverse] at member
  exact (onwards segments [] member).resolve_right List.not_mem_nil

/-- A path of slashes and segments. -/
def pathOf (slashes : Nat) (segments : List (List Char)) : List Char :=
  List.replicate slashes '/' ++ Text.join '/' segments

/-- What the slashes and segments of a normal form keep. -/
structure Tidy (slashes : Nat) (segments : List (List Char)) : Prop where
  few : slashes ≤ 2
  clear : ∀ segment ∈ segments, ∀ c ∈ segment, isSeparator c = false
  settled : Settled (slashes != 0) segments.reverse

theorem root_slashes_few (cs : List Char) : rootSlashes cs ≤ 2 := by
  unfold rootSlashes
  split <;> omega

theorem collapse_path_tidy (cs : List Char) : ∃ slashes segments, Tidy slashes segments ∧
    collapsePath (withSlashes cs) =
      if pathOf slashes segments = [] then ['.'] else pathOf slashes segments := by
  refine ⟨rootSlashes (withSlashes cs), _, ⟨root_slashes_few _, ?_, collapse_settled _ _⟩, rfl⟩
  intro segment member c here
  obtain ⟨absent, within⟩ := Text.split_at_pieces (mem_of_mem_collapse member)
  have noSlash : c ≠ '/' := fun same => absent (same ▸ here)
  have noBackslash : c ≠ '\\' := fun same => not_mem_with_slashes cs (same ▸ within c here)
  simp [isSeparator, noSlash, noBackslash]

namespace Tidy

variable {slashes : Nat}

theorem no_slash (tidy : Tidy slashes segments) : ∀ segment ∈ segments, '/' ∉ segment := by
  intro segment member here
  exact absurd (tidy.clear segment member '/' here) (by decide)

theorem filled (tidy : Tidy slashes segments) : ∀ segment ∈ segments, segment ≠ [] := by
  have all : ∀ stack, Settled (slashes != 0) stack → ∀ segment ∈ stack, segment ≠ [] := by
    intro stack
    induction stack with
    | nil => exact fun _ segment member => absurd member List.not_mem_nil
    | cons top below ih =>
      intro settled segment member
      rcases List.mem_cons.mp member with rfl | later
      · exact settled.1
      · exact ih settled.2.2.2 segment later
  intro segment member
  exact all _ tidy.settled segment (List.mem_reverse.mpr member)

/-- The text after the leading slashes starts with no further one. -/
theorem join_starts (tidy : Tidy slashes segments) :
    Text.join '/' segments = [] ∨ ∃ c rest, c ≠ '/' ∧ Text.join '/' segments = c :: rest := by
  cases segments with
  | nil => exact .inl rfl
  | cons first rest =>
    rcases shape : first with _ | ⟨c, cs⟩
    · exact absurd shape (tidy.filled first List.mem_cons_self)
    · have other : c ≠ '/' := by
        intro same
        apply tidy.no_slash first List.mem_cons_self
        rw [shape, same]
        exact List.mem_cons_self
      refine .inr ⟨c, ?_⟩
      cases rest with
      | nil => exact ⟨cs, other, rfl⟩
      | cons next more => exact ⟨_, other, rfl⟩

theorem root_slashes (tidy : Tidy slashes segments) :
    rootSlashes (pathOf slashes segments) = slashes := by
  have few := tidy.few
  have starts := tidy.join_starts
  rw [pathOf]
  rcases starts with none | ⟨c, rest, other, some⟩
  · rw [none]
    match slashes, few with
    | 0, _ => rfl
    | 1, _ => rfl
    | 2, _ => rfl
  · rw [some]
    match slashes, few with
    | 0, _ => simp [rootSlashes, other]
    | 1, _ => simp [rootSlashes, other]
    | 2, _ => simp [rootSlashes, other]

theorem collapse_pieces (tidy : Tidy slashes segments) :
    collapse (slashes != 0) (Text.splitAt '/' (pathOf slashes segments)) = segments := by
  have blank : ∀ n pieces, collapse (slashes != 0) (List.replicate n [] ++ pieces) =
      collapse (slashes != 0) pieces := by
    intro n pieces
    induction n with
    | zero => rfl
    | succ n ih => exact ih
  have again := collapse_of_settled tidy.settled
  rw [List.reverse_reverse] at again
  rw [pathOf, Text.split_at_replicate, blank]
  by_cases none : segments = []
  · subst none
    rfl
  · rw [Text.split_at_join none tidy.no_slash, again]

/-- The segments of a tidy path are found again in it. -/
theorem collapse_path (tidy : Tidy slashes segments) (some : pathOf slashes segments ≠ []) :
    collapsePath (pathOf slashes segments) = pathOf slashes segments := by
  simp only [collapsePath, tidy.root_slashes, tidy.collapse_pieces]
  exact if_neg some

theorem no_backslash (tidy : Tidy slashes segments) : '\\' ∉ pathOf slashes segments := by
  intro member
  rcases List.mem_append.mp member with slash | inside
  · exact absurd (List.eq_of_mem_replicate slash) (by decide)
  · rcases Text.mem_of_mem_join inside with slash | ⟨segment, listed, here⟩
    · exact absurd slash (by decide)
    · exact absurd (tidy.clear segment listed _ here) (by decide)

end Tidy

theorem lower_drive_slash (cs : List Char) : lowerDrive ('/' :: cs) = '/' :: cs := by
  unfold lowerDrive
  split
  · next c rest shape =>
    cases shape
    rfl
  · rfl

theorem lower_drive_of_ne {c d : Char} (other : d ≠ ':') (cs : List Char) :
    lowerDrive (c :: d :: cs) = c :: d :: cs := by
  unfold lowerDrive
  split
  · next shape =>
    cases shape
    exact absurd rfl other
  · rfl

theorem to_lower_bounds {c : Char} (least : 'A' ≤ c) (most : c ≤ 'Z') :
    'a' ≤ c.toLower ∧ c.toLower ≤ 'z' := by
  have low : 65 ≤ c.val.toNat := least
  have high : c.val.toNat ≤ 90 := most
  have moved : c.toLower.val = c.val + 32 := by
    unfold Char.toLower
    rw [dif_pos ⟨least, most⟩]
    rfl
  have number : c.toLower.val.toNat = c.val.toNat + 32 := by
    rw [moved, UInt32.toNat_add]
    have step : (32 : UInt32).toNat = 32 := rfl
    omega
  constructor
  · show 97 ≤ c.toLower.val.toNat
    omega
  · show c.toLower.val.toNat ≤ 122
    omega

/-- A text either has no capital drive letter and stays, or the letter becomes a small one. -/
theorem lower_drive_cases (cs : List Char) : lowerDrive cs = cs ∨
    ∃ c d rest, 'a' ≤ d ∧ d ≤ 'z' ∧ cs = c :: ':' :: rest ∧ lowerDrive cs = d :: ':' :: rest := by
  unfold lowerDrive
  split
  · next c rest =>
    by_cases capital : 'A' ≤ c ∧ c ≤ 'Z'
    · obtain ⟨least, most⟩ := to_lower_bounds capital.1 capital.2
      exact .inr ⟨c, c.toLower, rest, least, most, rfl, by rw [if_pos capital]⟩
    · exact .inl (by rw [if_neg capital])
  · exact .inl rfl

theorem lower_drive_twice (cs : List Char) : lowerDrive (lowerDrive cs) = lowerDrive cs := by
  rcases lower_drive_cases cs with same | ⟨c, d, rest, least, most, -, lowered⟩
  · rw [same, same]
  · have small : ¬('A' ≤ d ∧ d ≤ 'Z') := by
      intro capital
      exact absurd (Char.le_trans least capital.2) (by decide)
    rw [lowered]
    exact congrArg (· :: ':' :: rest) (if_neg small)

theorem lower_drive_ne_nil {cs : List Char} (some : cs ≠ []) : lowerDrive cs ≠ [] := by
  rcases lower_drive_cases cs with same | ⟨c, d, rest, -, -, -, lowered⟩
  · rw [same]
    exact some
  · rw [lowered]
    exact List.cons_ne_nil d _

/-- The segment at the front may be replaced by another one that is no dots. -/
theorem settled_replace {old new : List Char} (settled : Settled rooted (stack ++ [old]))
    (noDots : old ≠ ['.', '.']) (filled : new ≠ []) (noDot : new ≠ ['.'])
    (stillNoDots : new ≠ ['.', '.']) : Settled rooted (stack ++ [new]) := by
  induction stack with
  | nil => exact ⟨filled, noDot, fun dots => absurd dots stillNoDots, trivial⟩
  | cons top below ih =>
    obtain ⟨topFilled, topNoDot, front, settled⟩ := settled
    refine ⟨topFilled, topNoDot, ?_, ih settled⟩
    intro dots
    exact absurd ((front dots).2 old (by simp)) noDots

theorem lower_drive_join {first : List Char} (filled : first ≠ []) (rest : List (List Char)) :
    lowerDrive (Text.join '/' (first :: rest)) = Text.join '/' (lowerDrive first :: rest) := by
  cases rest with
  | nil => rfl
  | cons next more =>
    match first, filled with
    | [c], _ => exact lower_drive_of_ne (by decide) (Text.join '/' (next :: more))
    | c :: d :: cs, _ =>
      by_cases colon : d = ':'
      · subst colon
        rfl
      · rw [lower_drive_of_ne colon]
        exact lower_drive_of_ne colon (cs ++ '/' :: Text.join '/' (next :: more))

theorem Tidy.lower_drive {slashes : Nat} (tidy : Tidy slashes segments) :
    ∃ lowered, Tidy slashes lowered ∧
      lowerDrive (pathOf slashes segments) = pathOf slashes lowered := by
  cases slashes with
  | succ n => exact ⟨segments, tidy, lower_drive_slash _⟩
  | zero =>
    cases segments with
    | nil => exact ⟨[], tidy, rfl⟩
    | cons first rest =>
      have joined := lower_drive_join (tidy.filled first List.mem_cons_self) rest
      rcases lower_drive_cases first with same | ⟨c, d, cs, least, most, old, lowered⟩
      · exact ⟨first :: rest, tidy, by rw [same] at joined; exact joined⟩
      · refine ⟨(d :: ':' :: cs) :: rest, ⟨tidy.few, ?_, ?_⟩, by rw [lowered] at joined; exact joined⟩
        · intro segment member e here
          rcases List.mem_cons.mp member with rfl | later
          · rcases List.mem_cons.mp here with rfl | here
            · have noSlash : e ≠ '/' := fun same => absurd (same ▸ least) (by decide)
              have noBackslash : e ≠ '\\' := fun same => absurd (same ▸ least) (by decide)
              simp [isSeparator, noSlash, noBackslash]
            · apply tidy.clear first List.mem_cons_self
              rw [old]
              exact List.mem_cons_of_mem c here
          · exact tidy.clear segment (List.mem_cons_of_mem first later) e here
        · have settled := tidy.settled
          rw [List.reverse_cons] at settled ⊢
          exact settled_replace settled (by simp [old]) (by simp) (by simp) (by simp)

theorem normalize_chars_twice (cs : List Char) :
    normalizeChars (normalizeChars cs) = normalizeChars cs := by
  obtain ⟨slashes, segments, tidy, path⟩ := collapse_path_tidy cs
  by_cases none : pathOf slashes segments = []
  · have dot : normalizeChars cs = ['.'] := by
      rw [normalizeChars, path, if_pos none]
      rfl
    rw [dot]
    rfl
  · obtain ⟨lowered, stillTidy, lower⟩ := tidy.lower_drive
    have whole : normalizeChars cs = pathOf slashes lowered := by
      rw [normalizeChars, path, if_neg none, lower]
    have some : pathOf slashes lowered ≠ [] := lower ▸ lower_drive_ne_nil none
    rw [whole, normalizeChars, with_slashes_of_not_mem stillTidy.no_backslash,
      stillTidy.collapse_path some, ← lower, lower_drive_twice]

theorem normalize_ne_empty {id : String} (named : id ≠ "") : normalize id ≠ "" := by
  intro empty
  obtain ⟨slashes, segments, -, path⟩ := collapse_path_tidy id.toList
  have some : collapsePath (withSlashes id.toList) ≠ [] := by
    rw [path]
    split
    · exact List.cons_ne_nil _ _
    · assumption
  apply lower_drive_ne_nil some
  rw [normalize, if_neg named] at empty
  exact String.ofList_eq_empty_iff.mp empty

/-- A normal form is its own normal form. -/
theorem normalize_normalize (id : String) : normalize (normalize id) = normalize id := by
  by_cases empty : id = ""
  · subst empty
    rfl
  · have filled := normalize_ne_empty empty
    have once : normalize id = String.ofList (normalizeChars id.toList) := if_neg empty
    rw [normalize, if_neg filled, once, String.toList_ofList, normalize_chars_twice]

end ContractGraph.EntryId
