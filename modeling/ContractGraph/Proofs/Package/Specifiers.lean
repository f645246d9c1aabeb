import ContractGraph.Package.Name
import ContractGraph.Proofs.Text.FinalNewline
import ContractGraph.Proofs.Text.Segments

/-!
# Package specifiers

A specifier is accepted when it has no colon and is a package name, alone or with a path behind it,
and besides only when it is such a text with one newline at its end. The name is cut off by the
slashes and not by the grammar; both agree on where it ends, but a newline that ends the specifier
stays with a name that has no path behind it. So every path below a package has the name of the
package.
-/

namespace ContractGraph.PackageName

set_option autoImplicit false

/-- The characters that a name or a scope may start with. -/
def nameStarts : List Char := "abcdefghijklmnopqrstuvwxyz0123456789~".toList

/-- The characters that it goes on with. -/
def nameChars : List Char := "abcdefghijklmnopqrstuvwxyz0123456789~._-".toList

/-- A name without a scope, or a scope. -/
def IsName (cs : List Char) : Prop :=
  ∃ first rest, cs = first :: rest ∧ first ∈ nameStarts ∧ ∀ c ∈ rest, c ∈ nameChars

/-- The name of a package: a name, or a scope and a name. -/
inductive IsPackageName : List Char → Prop
  | plain {name : List Char} (named : IsName name) : IsPackageName name
  | inScope {scope name : List Char} (above : IsName scope) (named : IsName name) :
    IsPackageName ('@' :: scope ++ '/' :: name)

/-- A package name, or one with a path behind it that is all on one line, and no colon in either. -/
def IsImport (s : String) : Prop :=
  ':' ∉ s.toList ∧ ∃ name, IsPackageName name ∧
    (s.toList = name ∨ ∃ path, s.toList = name ++ '/' :: path ∧ '\n' ∉ path)

/-- A text without a slash, or one with a scope and no slash but the one behind the scope. -/
inductive IsOneName : List Char → Prop
  | plain {name : List Char} (bare : name.head? ≠ some '@') (clear : '/' ∉ name) : IsOneName name
  | inScope {scope name : List Char} (scopeClear : '/' ∉ scope) (clear : '/' ∉ name)
    (some : name ≠ []) : IsOneName ('@' :: scope ++ '/' :: name)

variable {cs name scope tail : List Char}

theorem is_name_start_iff (c : Char) : isNameStart c = true ↔ c ∈ nameStarts := by
  refine Text.check_iff_mem 127 ?_ (by decide) (by decide) c
  intro c starts
  simp only [isNameStart, Bool.or_eq_true, Bool.and_eq_true, decide_eq_true_eq, beq_iff_eq,
    Char.le_def, UInt32.le_iff_toNat_le] at starts
  rcases starts with (⟨-, below⟩ | ⟨-, below⟩) | rfl
  · exact Nat.lt_of_le_of_lt below (by decide)
  · exact Nat.lt_of_le_of_lt below (by decide)
  · decide

theorem name_chars_eq : nameChars = nameStarts ++ ['.', '_', '-'] := by decide

theorem is_name_char_iff (c : Char) : isNameChar c = true ↔ c ∈ nameChars := by
  rw [name_chars_eq, List.mem_append, ← is_name_start_iff]
  simp [isNameChar, or_assoc]

namespace IsName

theorem chars (named : IsName name) : ∀ c ∈ name, c ∈ nameChars := by
  rcases named with ⟨first, rest, rfl, starts, goes⟩
  have start : first ∈ nameChars := by
    rw [name_chars_eq]
    exact List.mem_append_left _ starts
  exact List.forall_mem_cons.mpr ⟨start, goes⟩

theorem not_mem {c : Char} (named : IsName name) (other : c ∉ nameChars) : c ∉ name :=
  fun member => other (named.chars c member)

theorem ne_nil (named : IsName name) : name ≠ [] := by
  rcases named with ⟨first, rest, rfl, -⟩
  exact List.cons_ne_nil first rest

theorem bare (named : IsName name) (tail : List Char) : (name ++ tail).head? ≠ some '@' := by
  rcases named with ⟨first, rest, rfl, starts, -⟩
  intro sign
  rw [Option.some.inj sign] at starts
  exact absurd starts (by decide)

/-- A name is read up to the first character that no name holds. -/
theorem after_name (named : IsName name) (stops : ∀ c ∈ tail.head?, c ∉ nameChars) :
    afterName (name ++ tail) = some tail := by
  rcases named with ⟨first, rest, rfl, starts, goes⟩
  have all : ∀ c ∈ rest, isNameChar c = true := fun c member =>
    (is_name_char_iff c).mpr (goes c member)
  have ends : tail.dropWhile isNameChar = tail := by
    cases tail with
    | nil => rfl
    | cons c cs =>
      apply List.dropWhile_cons_of_neg
      rw [is_name_char_iff]
      exact stops c rfl
  rw [List.cons_append, afterName, if_pos ((is_name_start_iff first).mpr starts),
    List.dropWhile_append_of_pos all, ends]

end IsName

theorem exists_of_after_name (read : afterName cs = some tail) :
    ∃ name, IsName name ∧ cs = name ++ tail := by
  cases cs with
  | nil => cases read
  | cons first rest =>
    rw [afterName] at read
    split at read
    · next starts =>
      cases read
      refine ⟨first :: rest.takeWhile isNameChar,
        ⟨first, _, rfl, (is_name_start_iff first).mp starts, ?_⟩, ?_⟩
      · intro c member
        exact (is_name_char_iff c).mp (List.mem_takeWhile_imp member)
      · rw [List.cons_append, List.takeWhile_append_dropWhile]
    · cases read

theorem after_scope_bare (bare : cs.head? ≠ some '@') : afterScope cs = some cs := by
  unfold afterScope
  split
  · exact absurd rfl bare
  · rfl

theorem exists_of_after_scope (read : (afterScope cs).bind afterName = some tail) :
    ∃ name, IsPackageName name ∧ cs = name ++ tail := by
  by_cases bare : cs.head? = some '@'
  · rcases List.head?_eq_some_iff.mp bare with ⟨rest, rfl⟩
    rw [afterScope] at read
    split at read
    · next later found =>
      rcases exists_of_after_name found with ⟨scope, above, rfl⟩
      rcases exists_of_after_name read with ⟨name, named, rfl⟩
      refine ⟨_, .inScope above named, ?_⟩
      simp only [List.cons_append, List.append_assoc]
    · cases read
  · rw [after_scope_bare bare] at read
    rcases exists_of_after_name read with ⟨name, named, whole⟩
    exact ⟨name, .plain named, whole⟩

namespace IsPackageName

theorem not_mem {c : Char} (named : IsPackageName name) (other : c ∉ nameChars) (slash : c ≠ '/')
    (sign : c ≠ '@') : c ∉ name := by
  cases named with
  | plain named => exact named.not_mem other
  | inScope above named =>
    simp [above.not_mem other, named.not_mem other, slash, sign]

theorem clear (named : IsPackageName name) : '\n' ∉ name :=
  named.not_mem (by decide) (by decide) (by decide)

theorem after_scope (named : IsPackageName name) (stops : ∀ c ∈ tail.head?, c ∉ nameChars) :
    (afterScope (name ++ tail)).bind afterName = some tail := by
  cases named with
  | plain named =>
    rw [after_scope_bare (named.bare tail)]
    exact named.after_name stops
  | @inScope scope name above named =>
    have slash : ∀ c ∈ ('/' :: (name ++ tail)).head?, c ∉ nameChars := by
      intro c first
      cases first
      decide
    have read := above.after_name slash
    rw [List.cons_append, List.cons_append, List.append_assoc, List.cons_append, afterScope, read]
    exact named.after_name stops

theorem one_name (named : IsPackageName name) : IsOneName name := by
  have slash : '/' ∉ nameChars := by decide
  cases named with
  | plain named => exact .plain (by simpa using named.bare []) (named.not_mem slash)
  | inScope above named =>
    exact .inScope (above.not_mem slash) (named.not_mem slash) named.ne_nil

/-- A newline behind the name of a package does not change where the name is cut. -/
theorem one_name_newline (named : IsPackageName name) : IsOneName (name ++ ['\n']) := by
  have slash : '/' ∉ nameChars := by decide
  cases named with
  | plain named =>
    refine .plain (named.bare ['\n']) ?_
    simp [named.not_mem slash]
  | @inScope scope name above named =>
    have clear : '/' ∉ name ++ ['\n'] := by simp [named.not_mem slash]
    have whole := IsOneName.inScope (above.not_mem slash) clear (by simp)
    simpa only [List.cons_append, List.append_assoc] using whole

end IsPackageName

/-- What may stand behind the name in a specifier. -/
def IsPath (tail : List Char) : Prop := tail = [] ∨ ∃ path, tail = '/' :: path ∧ '\n' ∉ path

theorem is_path_tail_iff : isPathTail tail = true ↔ IsPath (Text.splitFinalNewline tail).1 := by
  unfold isPathTail IsPath
  split
  · next nothing => simp [nothing]
  · next path starts => simp [starts]
  · next some other =>
    refine iff_of_false Bool.false_ne_true ?_
    rintro (nothing | ⟨path, starts, -⟩)
    · exact some nothing
    · exact other path starts

theorem IsPath.clear (path : IsPath tail) : '\n' ∉ tail := by
  rcases path with rfl | ⟨path, rfl, clear⟩
  · exact List.not_mem_nil
  · simp [clear]

/-- The tail of a specifier that is accepted is a path, or a path and one newline. -/
theorem path_cases (path : IsPath (Text.splitFinalNewline tail).1) :
    IsPath tail ∨ ∃ before, IsPath before ∧ tail = before ++ ['\n'] := by
  rcases Text.split_final_newline_cases tail with same | whole
  · rw [same] at path
    exact .inl path
  · exact .inr ⟨_, path, whole.symm⟩

theorem path_stops (path : IsPath (Text.splitFinalNewline tail).1) :
    ∀ c ∈ tail.head?, c ∉ nameChars := by
  intro c first
  rcases path_cases path with (rfl | ⟨rest, rfl, -⟩) | ⟨before, rfl | ⟨rest, rfl, -⟩, rfl⟩ <;>
    cases first <;> decide

theorem accepts_iff : isSpecifierChars cs = true ↔ ':' ∉ cs ∧ ∃ name tail, IsPackageName name ∧
    cs = name ++ tail ∧ IsPath (Text.splitFinalNewline tail).1 := by
  have clear : (!cs.contains ':') = true ↔ ':' ∉ cs := by simp
  rw [isSpecifierChars, Bool.and_eq_true, clear]
  refine and_congr_right fun _ => ?_
  constructor
  · intro accepted
    split at accepted
    · next tail read =>
      rcases exists_of_after_scope read with ⟨name, named, whole⟩
      exact ⟨name, tail, named, whole, is_path_tail_iff.mp accepted⟩
    · cases accepted
  · rintro ⟨name, tail, named, rfl, path⟩
    rw [named.after_scope (path_stops path)]
    exact is_path_tail_iff.mpr path

theorem is_import_iff {s : String} : IsImport s ↔ ':' ∉ s.toList ∧ ∃ name tail,
    IsPackageName name ∧ s.toList = name ++ tail ∧ IsPath tail := by
  refine and_congr_right fun _ => exists_congr fun name => ?_
  constructor
  · rintro ⟨named, whole | ⟨path, whole, clear⟩⟩
    · exact ⟨[], named, by rw [whole, List.append_nil], .inl rfl⟩
    · exact ⟨_, named, whole, .inr ⟨path, rfl, clear⟩⟩
  · rintro ⟨tail, named, whole, rfl | ⟨path, rfl, clear⟩⟩
    · exact ⟨named, .inl (by rw [whole, List.append_nil])⟩
    · exact ⟨named, .inr ⟨path, whole, clear⟩⟩

theorem IsImport.clear {s : String} (form : IsImport s) : '\n' ∉ s.toList := by
  rcases is_import_iff.mp form with ⟨-, name, tail, named, whole, path⟩
  rw [whole, List.mem_append, not_or]
  exact ⟨named.clear, path.clear⟩

theorem accepted_iff (s : String) :
    isSpecifier s = true ↔ IsImport s ∨ ∃ t, IsImport t ∧ s = t ++ "\n" := by
  rw [isSpecifier, accepts_iff]
  constructor
  · rintro ⟨colon, name, tail, named, whole, path⟩
    rcases path_cases path with alone | ⟨before, kept, rfl⟩
    · exact .inl (is_import_iff.mpr ⟨colon, name, tail, named, whole, alone⟩)
    · refine .inr ⟨String.ofList (name ++ before), is_import_iff.mpr ?_, ?_⟩
      · rw [String.toList_ofList]
        refine ⟨?_, name, before, named, rfl, kept⟩
        intro member
        apply colon
        rw [whole, ← List.append_assoc]
        exact List.mem_append_left _ member
      · apply String.toList_inj.mp
        rw [whole, String.toList_append, String.toList_ofList, List.append_assoc]
        rfl
  · rintro (form | ⟨t, form, rfl⟩)
    · rcases is_import_iff.mp form with ⟨colon, name, tail, named, whole, path⟩
      refine ⟨colon, name, tail, named, whole, ?_⟩
      rw [Text.split_final_newline_of_not_mem path.clear]
      exact path
    · rcases is_import_iff.mp form with ⟨colon, name, tail, named, whole, path⟩
      have ends : (t ++ "\n").toList = t.toList ++ ['\n'] := by simp
      rw [ends, whole]
      rw [whole] at colon
      refine ⟨?_, name, tail ++ ['\n'], named, List.append_assoc _ _ _, ?_⟩
      · simpa using colon
      · rw [Text.split_final_newline_append_one]
        exact path

theorem pieces_bare {piece : List Char} {more : List (List Char)} (bare : cs.head? ≠ some '@')
    (cut : Text.splitAt '/' cs = piece :: more) : namePieces cs = some piece := by
  unfold namePieces
  split
  · exact absurd List.head?_cons bare
  · exact absurd List.head?_cons bare
  · next same =>
    rw [cut] at same
    rw [(List.cons.inj same).1]
  · next same =>
    rw [cut] at same
    cases same

theorem pieces_in_scope {piece : List Char} {more : List (List Char)} (some : piece ≠ [])
    (cut : Text.splitAt '/' ('@' :: cs) = scope :: piece :: more) :
    namePieces ('@' :: cs) = .some (scope ++ '/' :: piece) := by
  unfold namePieces
  rw [cut]
  exact if_neg some

/-- What may stand behind a name, whatever lines it has. -/
def IsRest (rest : List Char) : Prop := rest = [] ∨ ∃ path, rest = '/' :: path

/-- What is cut off a text is the name, when nothing or a path stands behind it. -/
theorem IsOneName.name_pieces (one : IsOneName name) {rest : List Char}
    (behind : IsRest rest) : namePieces (name ++ rest) = some name := by
  have pieces : ∃ more, Text.splitAt '/' (name ++ rest) = Text.splitAt '/' name ++ more := by
    rcases behind with rfl | ⟨path, rfl⟩
    · exact ⟨[], by simp⟩
    · exact ⟨_, Text.split_at_append '/' name path⟩
  rcases pieces with ⟨more, cut⟩
  cases one with
  | plain bare clear =>
    rw [Text.split_at_of_not_mem clear] at cut
    apply pieces_bare ?_ cut
    rcases behind with rfl | ⟨path, rfl⟩
    · simpa using bare
    · cases name with
      | nil => simp
      | cons c cs => exact bare
  | @inScope scope name scopeClear clear some =>
    have first : '/' ∉ '@' :: scope := by simp [scopeClear]
    rw [Text.split_at_append, Text.split_at_of_not_mem first,
      Text.split_at_of_not_mem clear] at cut
    exact pieces_in_scope some cut

/-- An accepted specifier is a name with nothing or a path behind it, or a name and a newline. -/
theorem accepted_cases (accepted : isSpecifierChars cs = true) : ∃ name, IsPackageName name ∧
    ((∃ rest, IsRest rest ∧ cs = name ++ rest) ∨ cs = name ++ ['\n']) := by
  rcases accepts_iff.mp accepted with ⟨-, name, tail, named, rfl, path⟩
  refine ⟨name, named, ?_⟩
  rcases path_cases path with (rfl | ⟨more, rfl, -⟩) | ⟨before, rfl | ⟨more, rfl, -⟩, rfl⟩
  · exact .inl ⟨[], .inl rfl, rfl⟩
  · exact .inl ⟨_, .inr ⟨more, rfl⟩, rfl⟩
  · exact .inr rfl
  · exact .inl ⟨_, .inr ⟨more ++ ['\n'], List.cons_append⟩, rfl⟩

variable {s p : String}

theorem of_specifier_eq_some_iff : ofSpecifier? s = some p ↔
    isSpecifier s = true ∧ namePieces s.toList = some p.toList := by
  rw [ofSpecifier?]
  split
  · next accepted =>
    rw [Option.map_eq_some_iff]
    refine ⟨?_, fun cut => ⟨_, cut.2, String.ofList_toList⟩⟩
    rintro ⟨name, cut, rfl⟩
    rw [String.toList_ofList]
    exact ⟨accepted, cut⟩
  · next refused => simp [refused]

/-- The name of a specifier that has a path or nothing behind its name is this name. -/
theorem name_of_import (named : IsPackageName p.toList) (colon : ':' ∉ s.toList) {rest : List Char}
    (path : IsPath rest) (whole : s.toList = p.toList ++ rest) : ofSpecifier? s = some p := by
  rw [of_specifier_eq_some_iff]
  constructor
  · refine (accepted_iff s).mpr (.inl (is_import_iff.mpr ?_))
    exact ⟨colon, p.toList, rest, named, whole, path⟩
  · rw [whole]
    exact named.one_name.name_pieces (path.imp_right fun ⟨path, starts, _⟩ => ⟨path, starts⟩)

/-- What is taken for a name is one, with nothing or a path behind it in the specifier, or it is the
whole specifier, which is a name and a newline. -/
theorem name_cases (cut : ofSpecifier? s = some p) :
    (IsPackageName p.toList ∧ ∃ rest, IsRest rest ∧ s.toList = p.toList ++ rest) ∨
      s = p ∧ ∃ name, IsPackageName name ∧ s.toList = name ++ ['\n'] := by
  rcases of_specifier_eq_some_iff.mp cut with ⟨accepted, pieces⟩
  rcases accepted_cases accepted with ⟨name, named, ⟨rest, behind, whole⟩ | whole⟩
  · rw [whole, named.one_name.name_pieces behind] at pieces
    rw [← Option.some.inj pieces]
    exact .inl ⟨named, rest, behind, whole⟩
  · refine .inr ⟨String.toList_inj.mp ?_, name, named, whole⟩
    have all := named.one_name_newline.name_pieces (.inl rfl)
    rw [List.append_nil, ← whole, pieces] at all
    exact (Option.some.inj all).symm

theorem exists_name (accepted : isSpecifier s = true) : ∃ p, ofSpecifier? s = some p := by
  rcases accepted_cases accepted with ⟨name, named, ⟨rest, behind, whole⟩ | whole⟩
  · refine ⟨String.ofList name, of_specifier_eq_some_iff.mpr ⟨accepted, ?_⟩⟩
    rw [whole, named.one_name.name_pieces behind, String.toList_ofList]
  · refine ⟨s, of_specifier_eq_some_iff.mpr ⟨accepted, ?_⟩⟩
    have all := named.one_name_newline.name_pieces (.inl rfl)
    rwa [List.append_nil, ← whole] at all

theorem IsRest.text {rest : List Char} (behind : IsRest rest)
    (whole : s.toList = p.toList ++ rest) : s = p ∨ ∃ path, s = p ++ "/" ++ path := by
  rcases behind with rfl | ⟨path, rfl⟩
  · left
    apply String.toList_inj.mp
    rw [whole, List.append_nil]
  · right
    refine ⟨String.ofList path, String.toList_inj.mp ?_⟩
    rw [whole]
    simp

/-- A path below a package has the name of the package. -/
theorem name_below (named : IsPackageName p.toList) (own : ':' ∉ p.toList) {path : String}
    (clear : ':' ∉ path.toList) (line : '\n' ∉ path.toList) :
    ofSpecifier? (p ++ "/" ++ path) = some p := by
  have parts : (p ++ "/" ++ path).toList = p.toList ++ '/' :: path.toList := by simp
  refine name_of_import named ?_ (.inr ⟨path.toList, rfl, line⟩) parts
  rw [parts]
  simp [own, clear]

/-- Accepted are the specifiers of the grammar, and these with a newline behind them, so the check is
right about a text exactly when it is not one of the latter. What is taken for the name of a package
is one, unless the specifier is a name with a newline behind it. -/
theorem specifiers_accepted (s : String) :
    (isSpecifier s = true ↔ IsImport s ∨ ∃ t, IsImport t ∧ s = t ++ "\n") ∧
      ((isSpecifier s = true ↔ IsImport s) ↔ ¬∃ t, IsImport t ∧ s = t ++ "\n") ∧
      ∀ p, ofSpecifier? s = some p →
        (IsPackageName p.toList ↔ ¬∃ name, IsPackageName name ∧ s.toList = name ++ ['\n']) := by
  refine ⟨accepted_iff s, ?_, ?_⟩
  · rw [accepted_iff]
    exact Text.or_newline_exact_iff (fun _ form => form.clear) s
  · intro p cut
    constructor
    · rintro named ⟨name, above, whole⟩
      have all := above.one_name_newline.name_pieces (.inl rfl)
      rw [List.append_nil, ← whole, (of_specifier_eq_some_iff.mp cut).2, whole] at all
      apply named.clear
      rw [Option.some.inj all]
      exact List.mem_append_right name List.mem_cons_self
    · intro none
      rcases name_cases cut with ⟨named, -⟩ | ⟨-, more⟩
      · exact named
      · exact absurd more none

/-- A path below a package in a scope has the name of the package. -/
theorem specifiers_accepted_of_path :
    ofSpecifier? "@scope/pkg/sub" = some "@scope/pkg" ∧ IsPackageName "@scope/pkg".toList := by
  have cut : ofSpecifier? "@scope/pkg/sub" = some "@scope/pkg" := by decide
  refine ⟨cut, ((specifiers_accepted "@scope/pkg/sub").2.2 _ cut).mpr ?_⟩
  rintro ⟨name, -, whole⟩
  have last := congrArg List.getLast? whole
  rw [List.getLast?_append, List.getLast?_singleton, Option.some_or] at last
  exact absurd last (by decide)

/-- A name with a newline behind it is accepted, and the newline is taken for a part of the name. -/
theorem newline_stays_with_name :
    isSpecifier "react\n" = true ∧ ¬IsImport "react\n" ∧
      ofSpecifier? "react\n" = some "react\n" ∧ ¬IsPackageName "react\n".toList := by
  refine ⟨by decide, ?_, by decide, ?_⟩
  · intro form
    exact absurd form.clear (by decide)
  · intro named
    exact absurd named.clear (by decide)

/-- Exactly the accepted specifiers have a name. It stands in front, alone or before a slash, holds no
slash but the one behind a scope, and is its own name. Without a newline in it, every path below it
has this name. -/
theorem subpaths_share_name (s : String) :
    ((∃ p, ofSpecifier? s = some p) ↔ isSpecifier s = true) ∧
      ∀ p, ofSpecifier? s = some p →
        (s = p ∨ ∃ path, s = p ++ "/" ++ path) ∧ IsOneName p.toList ∧ ofSpecifier? p = some p ∧
          ('\n' ∉ p.toList → ∀ t : String, ':' ∉ t.toList → '\n' ∉ t.toList →
            ofSpecifier? (p ++ "/" ++ t) = some p) := by
  constructor
  · constructor
    · rintro ⟨p, cut⟩
      exact (of_specifier_eq_some_iff.mp cut).1
    · exact exists_name
  · intro p cut
    have colon := (accepts_iff.mp (of_specifier_eq_some_iff.mp cut).1).1
    rcases name_cases cut with ⟨named, rest, behind, whole⟩ | ⟨rfl, name, named, whole⟩
    · have own : ':' ∉ p.toList := by
        intro member
        apply colon
        rw [whole]
        exact List.mem_append_left rest member
      have self := name_of_import named own (.inl rfl) (List.append_nil _).symm
      refine ⟨behind.text whole, named.one_name, self, ?_⟩
      intro _ t clear line
      exact name_below named own clear line
    · refine ⟨.inl rfl, ?_, cut, ?_⟩
      · rw [whole]
        exact named.one_name_newline
      · intro line
        rw [whole] at line
        exact absurd (List.mem_append_right name List.mem_cons_self) line

/-- Two paths below a package in a scope share its name. -/
theorem subpaths_share_name_of_scope :
    ofSpecifier? "@scope/pkg/sub" = some "@scope/pkg" ∧
      ofSpecifier? ("@scope/pkg" ++ "/" ++ "other/@deep") = some "@scope/pkg" := by
  have cut : ofSpecifier? "@scope/pkg/sub" = some "@scope/pkg" := by decide
  exact ⟨cut, ((subpaths_share_name "@scope/pkg/sub").2 _ cut).2.2.2 (by decide) _ (by decide)
    (by decide)⟩

end ContractGraph.PackageName
