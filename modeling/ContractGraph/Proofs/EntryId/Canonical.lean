import ContractGraph.Proofs.EntryId.NormalForm

/-!
# The canonical form of an entry id

The normal form of an id is a path that is written in the shortest way: without backslashes and
without a capital drive letter, a single dot or segments between single slashes, none of them empty
or a single dot, and double dots only where a relative path starts. An id is its own normal form
exactly when it is written in this way. Two spellings that differ by something superfluous, a
further slash, a single dot or a segment that double dots take back, have the same normal form.
-/

namespace ContractGraph.Text

set_option autoImplicit false

theorem join_eq_intercalate (sep : Char) (pieces : List (List Char)) :
    join sep pieces = [sep].intercalate pieces := by
  induction pieces with
  | nil => rfl
  | cons piece rest ih =>
    cases rest with
    | nil => exact List.intercalate_singleton.symm
    | cons next more =>
      rw [join, ih, List.intercalate_cons_cons, List.append_assoc]
      · rfl
      · exact List.cons_ne_nil next more

end ContractGraph.Text

namespace ContractGraph.EntryId

set_option autoImplicit false

/-- An id that is written in the shortest way. -/
structure IsCanonical (id : String) : Prop where
  slashed : '\\' ∉ id.toList
  lowered : ∀ letter rest, id.toList = letter :: ':' :: rest → ¬('A' ≤ letter ∧ letter ≤ 'Z')
  shape : id = "." ∨ ∃ (slashes ups : Nat) (names : List (List Char)),
    id.toList = List.replicate slashes '/' ++
      ['/'].intercalate (List.replicate ups ['.', '.'] ++ names) ∧
    id ≠ "" ∧ slashes ≤ 2 ∧ (slashes = 0 ∨ ups = 0) ∧
    ∀ name ∈ names, name ≠ [] ∧ '/' ∉ name ∧ name ≠ ['.'] ∧ name ≠ ['.', '.']

/-- Where a segment may start: behind all leading slashes, or behind a later slash. -/
inductive Opens : List Char → List Char → Prop
  | leading (slashes : Nat) {after : List Char} (all : after.head? ≠ some '/') :
    Opens (List.replicate slashes '/') after
  | later {before : List Char} (after : List Char) (led : ∃ c ∈ before, c ≠ '/') :
    Opens (before ++ ['/']) after

/-- The second text is the first with something superfluous put into it: a slash doubled that is no
leading one, or, where a segment may start, a single dot or a name and double dots. -/
inductive Widens : List Char → List Char → Prop
  | slash {before : List Char} (after : List Char) (led : ∃ c ∈ before, c ≠ '/') :
    Widens (before ++ '/' :: after) (before ++ '/' :: '/' :: after)
  | dot {before after : List Char} (opens : Opens before after) :
    Widens (before ++ after) (before ++ '.' :: '/' :: after)
  | name {before name after : List Char} (opens : Opens before after) (filled : name ≠ [])
    (noDot : name ≠ ['.']) (noDots : name ≠ ['.', '.']) (clear : ∀ c ∈ name, c ≠ '/' ∧ c ≠ '\\') :
    Widens (before ++ after) (before ++ (name ++ '/' :: '.' :: '.' :: '/' :: after))

variable {rooted : Bool} {stack segments : List (List Char)} {before after cs wide : List Char}

theorem settled_of_names {names : List (List Char)} (settled : Settled rooted stack)
    (each : ∀ name ∈ names, name ≠ [] ∧ name ≠ ['.'] ∧ name ≠ ['.', '.']) :
    Settled rooted (names ++ stack) := by
  induction names with
  | nil => exact settled
  | cons name rest ih =>
    rcases each name List.mem_cons_self with ⟨filled, noDot, noDots⟩
    refine ⟨filled, noDot, fun dots => absurd dots noDots, ih ?_⟩
    exact fun other member => each other (List.mem_cons_of_mem name member)

theorem settled_of_ups {ups : Nat} (relative : rooted = false ∨ ups = 0) :
    Settled rooted (List.replicate ups ['.', '.']) := by
  induction ups with
  | zero => exact trivial
  | succ ups ih =>
    have below : rooted = false := relative.resolve_right (Nat.succ_ne_zero ups)
    refine ⟨by simp, by simp, fun _ => ⟨below, ?_⟩, ih (.inl below)⟩
    exact fun segment member => List.eq_of_mem_replicate member

/-- On a settled stack the double dots are at the bottom, so in front of the path. -/
theorem ups_of_settled (settled : Settled rooted stack) : ∃ ups names,
    stack.reverse = List.replicate ups ['.', '.'] ++ names ∧ (rooted = false ∨ ups = 0) ∧
      ∀ name ∈ names, name ≠ [] ∧ name ≠ ['.'] ∧ name ≠ ['.', '.'] := by
  induction stack with
  | nil => exact ⟨0, [], rfl, .inr rfl, by simp⟩
  | cons top below ih =>
    rcases settled with ⟨filled, noDot, front, settled⟩
    by_cases dots : top = ['.', '.']
    · rcases front dots with ⟨relative, all⟩
      refine ⟨below.length + 1, [], ?_, .inl relative, by simp⟩
      rw [List.reverse_cons, List.eq_replicate_iff.mpr ⟨rfl, all⟩, dots]
      simp [List.replicate_succ']
    · rcases ih settled with ⟨ups, names, whole, relative, each⟩
      refine ⟨ups, names ++ [top], ?_, relative, ?_⟩
      · rw [List.reverse_cons, whole, List.append_assoc]
      · intro name member
        rcases List.mem_append.mp member with earlier | last
        · exact each name earlier
        · rw [List.mem_singleton.mp last]
          exact ⟨filled, noDot, dots⟩

theorem lower_drive_eq_self_iff : lowerDrive cs = cs ↔
    ∀ letter rest, cs = letter :: ':' :: rest → ¬('A' ≤ letter ∧ letter ≤ 'Z') := by
  constructor
  · rintro same letter rest rfl capital
    rw [lowerDrive, if_pos capital] at same
    have least := (to_lower_bounds capital.1 capital.2).1
    rw [(List.cons.inj same).1] at least
    exact absurd (Char.le_trans least capital.2) (by decide)
  · intro small
    unfold lowerDrive
    split
    · next letter rest =>
      rw [if_neg (small letter rest rfl)]
    · rfl

/-- The normal form is canonical. -/
theorem normalize_is_canonical {id : String} (named : id ≠ "") : IsCanonical (normalize id) := by
  have chars : (normalize id).toList = normalizeChars id.toList := by
    rw [normalize, if_neg named, String.toList_ofList]
  rcases collapse_path_tidy id.toList with ⟨slashes, segments, tidy, path⟩
  by_cases none : pathOf slashes segments = []
  · have dot : normalize id = "." := by
      apply String.toList_inj.mp
      rw [chars, normalizeChars, path, if_pos none]
      rfl
    rw [dot]
    exact ⟨by decide, by simp, .inl rfl⟩
  · rcases tidy.lower_drive with ⟨lowered, stillTidy, lower⟩
    have whole : (normalize id).toList = pathOf slashes lowered := by
      rw [chars, normalizeChars, path, if_neg none, lower]
    refine ⟨?_, ?_, .inr ?_⟩
    · intro member
      rw [whole] at member
      exact stillTidy.no_backslash member
    · apply lower_drive_eq_self_iff.mp
      rw [whole, ← lower, lower_drive_twice]
    · rcases ups_of_settled stillTidy.settled with ⟨ups, names, parts, relative, each⟩
      rw [List.reverse_reverse] at parts
      refine ⟨slashes, ups, names, ?_, normalize_ne_empty named, tidy.few, ?_, ?_⟩
      · rw [whole, pathOf, Text.join_eq_intercalate, parts]
      · simpa using relative
      · intro name member
        rcases each name member with ⟨filled, noDot, noDots⟩
        have listed : name ∈ lowered := by
          rw [parts]
          exact List.mem_append_right _ member
        exact ⟨filled, stillTidy.no_slash name listed, noDot, noDots⟩

/-- Names behind double dots that are only there in a relative path are segments of a normal form. -/
theorem tidy_of_names {slashes ups : Nat} {names : List (List Char)} (few : slashes ≤ 2)
    (relative : slashes = 0 ∨ ups = 0)
    (each : ∀ name ∈ names, name ≠ [] ∧ '/' ∉ name ∧ name ≠ ['.'] ∧ name ≠ ['.', '.'])
    (slashed : '\\' ∉ Text.join '/' (List.replicate ups ['.', '.'] ++ names)) :
    Tidy slashes (List.replicate ups ['.', '.'] ++ names) := by
  refine ⟨few, ?_, ?_⟩
  · intro segment member c here
    have noBackslash : c ≠ '\\' := by
      rintro rfl
      exact slashed (Text.mem_join_of_mem member here)
    have noSlash : c ≠ '/' := by
      rintro rfl
      rcases List.mem_append.mp member with up | name
      · rw [List.eq_of_mem_replicate up] at here
        exact absurd here (by decide)
      · exact (each segment name).2.1 here
    simp [isSeparator, noSlash, noBackslash]
  · rw [List.reverse_append, List.reverse_replicate]
    apply settled_of_names
    · apply settled_of_ups
      simpa using relative
    · intro name member
      rcases each name (List.mem_reverse.mp member) with ⟨filled, -, noDot, noDots⟩
      exact ⟨filled, noDot, noDots⟩

theorem IsCanonical.normalize_eq {id : String} (canonical : IsCanonical id) :
    normalize id = id := by
  rcases canonical.shape with rfl | ⟨slashes, ups, names, whole, named, few, relative, each⟩
  · decide
  · rw [← Text.join_eq_intercalate] at whole
    have slashed := canonical.slashed
    rw [whole, List.mem_append, not_or] at slashed
    have tidy := tidy_of_names few relative each slashed.2
    have some : pathOf slashes (List.replicate ups ['.', '.'] ++ names) ≠ [] := by
      rw [pathOf, ← whole]
      exact mt String.toList_eq_nil_iff.mp named
    rw [normalize, if_neg named, normalizeChars, whole, ← pathOf,
      with_slashes_of_not_mem tidy.no_backslash, tidy.collapse_path some, pathOf, ← whole,
      lower_drive_eq_self_iff.mpr canonical.lowered, String.ofList_toList]

theorem Opens.pieces (opens : Opens before after) : ∃ front, ∀ rest,
    Text.splitAt '/' (before ++ rest) = front ++ Text.splitAt '/' rest := by
  cases opens with
  | leading slashes all => exact ⟨_, Text.split_at_replicate '/' slashes⟩
  | @later before _ led =>
    refine ⟨Text.splitAt '/' before, fun rest => ?_⟩
    rw [List.append_assoc]
    exact Text.split_at_append '/' before rest

/-- How many slashes the normal form keeps depends on the leading slashes alone. -/
theorem root_slashes_leading (slashes : Nat) {rest : List Char} (all : rest.head? ≠ some '/') :
    rootSlashes (List.replicate slashes '/' ++ rest) =
      rootSlashes (List.replicate slashes '/') := by
  cases rest with
  | nil => rw [List.append_nil]
  | cons c cs =>
    have other : c ≠ '/' := fun same => all (congrArg some same)
    match slashes with
    | 0 => simp [rootSlashes, other]
    | 1 => simp [rootSlashes, other]
    | 2 => simp [rootSlashes, other]
    | n + 3 => rfl

theorem exists_leading (cs : List Char) : ∃ slashes rest, cs = List.replicate slashes '/' ++ rest ∧
    rest.head? ≠ some '/' := by
  induction cs with
  | nil => exact ⟨0, [], rfl, by simp⟩
  | cons c cs ih =>
    by_cases same : c = '/'
    · rcases ih with ⟨slashes, rest, rfl, all⟩
      exact ⟨slashes + 1, rest, by rw [same, List.replicate_succ, List.cons_append], all⟩
    · exact ⟨0, c :: cs, rfl, fun first => same (Option.some.inj first)⟩

theorem root_slashes_led (led : ∃ c ∈ before, c ≠ '/') (rest : List Char) :
    rootSlashes (before ++ rest) = rootSlashes before := by
  rcases exists_leading before with ⟨slashes, name, rfl, all⟩
  rcases led with ⟨c, member, other⟩
  have filled : name ≠ [] := by
    rintro rfl
    rw [List.append_nil] at member
    exact other (List.eq_of_mem_replicate member)
  have still : (name ++ rest).head? ≠ some '/' := by
    cases name with
    | nil => exact absurd rfl filled
    | cons c cs => exact all
  rw [List.append_assoc, root_slashes_leading slashes still, root_slashes_leading slashes all]

theorem Opens.root_slashes (opens : Opens before after) {rest : List Char}
    (other : rest.head? ≠ some '/') :
    rootSlashes (before ++ rest) = rootSlashes (before ++ after) := by
  cases opens with
  | leading slashes all => rw [root_slashes_leading slashes other, root_slashes_leading slashes all]
  | @later before _ led =>
    rw [List.append_assoc, List.append_assoc, root_slashes_led led, root_slashes_led led]

theorem push_skips (rooted : Bool) {segment : List Char} (skipped : segment = [] ∨ segment = ['.'])
    (stack : List (List Char)) : pushSegment rooted stack segment = stack := by
  unfold pushSegment
  exact if_pos skipped

/-- Double dots take the name before them back. -/
theorem push_back {name : List Char} (filled : name ≠ []) (noDot : name ≠ ['.'])
    (noDots : name ≠ ['.', '.']) (stack : List (List Char)) :
    pushSegment rooted (pushSegment rooted stack name) ['.', '.'] = stack := by
  have pushed : pushSegment rooted stack name = name :: stack := by
    unfold pushSegment
    rw [if_neg (not_or.mpr ⟨filled, noDot⟩), if_neg noDots]
  rw [pushed]
  unfold pushSegment
  rw [if_neg (by simp), if_pos rfl]
  exact if_neg noDots

/-- Segments that leave every stack as it is may stand anywhere in a path. -/
theorem collapse_insert (inserted : List (List Char)) {front back : List (List Char)}
    (leaves : ∀ stack, inserted.foldl (pushSegment rooted) stack = stack) :
    collapse rooted (front ++ (inserted ++ back)) = collapse rooted (front ++ back) := by
  rw [collapse, collapse, List.foldl_append, List.foldl_append, List.foldl_append, leaves]

theorem collapse_path_congr (slashes : rootSlashes wide = rootSlashes cs)
    (segments : ∀ rooted, collapse rooted (Text.splitAt '/' wide) =
      collapse rooted (Text.splitAt '/' cs)) : collapsePath wide = collapsePath cs := by
  simp only [collapsePath, slashes, segments]

/-- What is superfluous in a path goes when the path is collapsed. -/
theorem collapse_path_widened (widens : Widens cs wide) : collapsePath wide = collapsePath cs := by
  cases widens with
  | @slash before after led =>
    refine collapse_path_congr ?_ fun rooted => ?_
    · rw [root_slashes_led led, root_slashes_led led]
    · rw [Text.split_at_append, Text.split_at_append]
      exact collapse_insert [[]] (push_skips rooted (.inl rfl))
  | @dot before after opens =>
    rcases opens.pieces with ⟨front, pieces⟩
    refine collapse_path_congr (opens.root_slashes (by simp)) fun rooted => ?_
    rw [pieces, pieces]
    exact collapse_insert [['.']] (push_skips rooted (.inr rfl))
  | @name before name after opens filled noDot noDots clear =>
    rcases opens.pieces with ⟨front, pieces⟩
    have noSlash : '/' ∉ name := fun member => (clear '/' member).1 rfl
    have other : (name ++ '/' :: '.' :: '.' :: '/' :: after).head? ≠ some '/' := by
      cases name with
      | nil => exact absurd rfl filled
      | cons c cs => exact fun first => (clear c List.mem_cons_self).1 (Option.some.inj first)
    refine collapse_path_congr (opens.root_slashes other) fun rooted => ?_
    rw [pieces, pieces, Text.split_at_append, Text.split_at_of_not_mem noSlash]
    exact collapse_insert [name, ['.', '.']] (push_back filled noDot noDots)

theorem Widens.not_mem (widens : Widens cs wide) (clear : '\\' ∉ cs) : '\\' ∉ wide := by
  cases widens with
  | slash after led => simpa using clear
  | dot opens => simpa using clear
  | @name before name after opens filled noDot noDots each =>
    have own : '\\' ∉ name := fun member => (each '\\' member).2 rfl
    simpa [own] using clear

theorem Widens.ne_nil (widens : Widens cs wide) : wide ≠ [] := by
  cases widens <;> simp

/-- The normal form of an id that is not empty is canonical, and the id itself exactly when the id is
canonical. It does not tell backslashes from slashes, nor, in an id without backslashes, a spelling
with something superfluous from one without it. -/
theorem normalize_canonical (id : String) (named : id ≠ "") :
    IsCanonical (normalize id) ∧ (normalize id = id ↔ IsCanonical id) ∧
      normalize (String.ofList (id.toList.map fun c => if c = '\\' then '/' else c)) =
        normalize id ∧
      ('\\' ∉ id.toList → ∀ wide : String, Widens id.toList wide.toList →
        normalize wide = normalize id) := by
  have canonical := normalize_is_canonical named
  refine ⟨canonical, ⟨?_, IsCanonical.normalize_eq⟩, ?_, ?_⟩
  · intro same
    rw [← same]
    exact canonical
  · have filled : String.ofList (withSlashes id.toList) ≠ "" := by
      simpa [withSlashes] using named
    rw [← withSlashes, normalize, normalize, if_neg filled, if_neg named, String.toList_ofList,
      normalizeChars, with_slashes_of_not_mem (not_mem_with_slashes id.toList), normalizeChars]
  · intro clear wide widens
    have filled : wide ≠ "" := fun empty => widens.ne_nil (String.toList_eq_nil_iff.mpr empty)
    rw [normalize, normalize, if_neg filled, if_neg named, normalizeChars, normalizeChars,
      with_slashes_of_not_mem (widens.not_mem clear), with_slashes_of_not_mem clear,
      collapse_path_widened widens]

/-- A detour behind a later slash, in a relative path that goes up and has an empty segment. -/
theorem normalize_canonical_of_detour :
    "../b//a" ≠ "" ∧ Widens "../b//a".toList "../b/x/..//a".toList ∧
      IsCanonical (normalize "../b//a") ∧ normalize "../b/x/..//a" = normalize "../b//a" := by
  have named : "../b//a" ≠ "" := by decide
  have place : Opens ("../b".toList ++ ['/']) "/a".toList := .later _ ⟨'b', by decide, by decide⟩
  have detour : Widens (("../b".toList ++ ['/']) ++ "/a".toList)
      (("../b".toList ++ ['/']) ++ ("x".toList ++ '/' :: '.' :: '.' :: '/' :: "/a".toList)) :=
    .name place (by decide) (by decide) (by decide) (by simp)
  rcases normalize_canonical "../b//a" named with ⟨canonical, -, -, widened⟩
  exact ⟨named, detour, canonical, widened (by decide) _ detour⟩

end ContractGraph.EntryId
