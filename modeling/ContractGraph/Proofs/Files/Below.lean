import ContractGraph.Files.Documents
import ContractGraph.Proofs.Files.Resolved
import Mathlib.Data.List.Induction

/-!
# What stands below a root

Names lead from a root to what stands below it when the system follows them there, part by part.
Where the root leads to a folder of the tree, these are the entries whose names go on from those of
the folder; of what stands below the root of all files nothing is known.
-/

namespace ContractGraph

set_option autoImplicit false

theorem own_of_file_name {name : String} (fits : isFileName name = true) : name ≠ ".." := by
  rintro rfl
  exact absurd fits (by decide)

theorem short_of_file_name {name : String} (fits : isFileName name = true) :
    ¬maxNameLength < name.utf8ByteSize := by
  simp only [isFileName, Bool.and_eq_true, decide_eq_true_eq] at fits
  omega

theorem not_above_append {folder names : List String} (some : names ≠ [])
    (named : ∀ name ∈ names, isFileName name = true) : isAbove (folder ++ names) = false := by
  obtain ⟨name, rest, rfl⟩ := List.exists_cons_of_ne_nil some
  have own := own_of_file_name (named name List.mem_cons_self)
  simp [isAbove, own]

/-- Names that do not start with a double dot are added to the own names of a folder. -/
theorem own_names_append {folder names : List String} (own : names.head?.any (· != "..") = true) :
    ownNames (folder ++ names) = ownNames folder ++ names := by
  obtain ⟨name, rest, rfl⟩ : ∃ name rest, names = name :: rest := by
    cases names with
    | nil => cases own
    | cons name rest => exact ⟨name, rest, rfl⟩
  have stays : (name :: rest).dropWhile (· == "..") = name :: rest := by
    rw [List.dropWhile_cons_of_neg]
    simpa using own
  rw [ownNames, ownNames, List.dropWhile_append, stays]
  split
  · next none => rw [List.isEmpty_iff.mp none, List.nil_append]
  · rfl

namespace FileTree

variable {t : FileTree} {root : Location} {folder names : List String} {node : FileNode}
  {spot : Spot}

/-- Names of files that lead from a root to a node. -/
def IsBelow (t : FileTree) (root : Location) (names : List String) (node : FileNode) : Prop :=
  names ≠ [] ∧ (∀ name ∈ names, isFileName name = true) ∧
    ∃ spot, t.follow (root.under names) = .ok spot ∧ t.nodeAt? spot = some node

theorem follow_under (t : FileTree) (root : Location) (names : List String) :
    t.follow (root.under names) = t.follow root >>= fun spot => names.foldlM t.step spot := by
  rw [follow, Location.under, List.foldlM_append]
  rfl

/-- A step by the name of a file leads to what stands under it in the folder. -/
theorem step_to_name {name : String} (fits : isFileName name = true) :
    t.step (.inside folder) name = .ok spot ↔
      spot = .inside (folder ++ [name]) ∧ (t.nodeAt? spot).isSome := by
  have own := own_of_file_name fits
  rw [step, if_neg own, if_neg (short_of_file_name fits)]
  simp only [Spot.down?]
  constructor
  · intro done
    split at done
    · cases done
    · split at done
      · next there =>
        cases done
        exact ⟨rfl, there⟩
      · cases done
  · rintro ⟨rfl, there⟩
    obtain ⟨node, found⟩ := Option.isSome_iff_exists.mp there
    rw [if_neg (by simp [step_in_folder own found]), if_pos there]

/-- Following names of files from a folder leads to what stands under them. -/
theorem follow_names (there : (t.nodeAt? (.inside folder)).isSome)
    (named : ∀ name ∈ names, isFileName name = true) :
    names.foldlM t.step (.inside folder) = .ok spot ↔
      spot = .inside (folder ++ names) ∧ (t.nodeAt? spot).isSome := by
  -- From the end, because the tree knows of each entry the folder that it stands in.
  induction names using List.reverseRecOn generalizing spot with
  | nil =>
    rw [List.foldlM_nil, List.append_nil]
    constructor
    · intro done
      cases done
      exact ⟨rfl, there⟩
    · rintro ⟨rfl, _⟩
      rfl
  | append_singleton names name ih =>
    have fits := named name (by simp)
    have others : ∀ other ∈ names, isFileName other = true := fun other member =>
      named other (List.mem_append_left [name] member)
    rw [List.foldlM_append, ← List.append_assoc]
    simp only [List.foldlM_cons, List.foldlM_nil, bind_pure]
    constructor
    · intro done
      obtain ⟨middle, first, last⟩ := ok_of_bind done
      rw [((ih others).mp first).1] at last
      exact (step_to_name fits).mp last
    · intro found
      obtain ⟨node, here⟩ := Option.isSome_iff_exists.mp found.2
      have parent : t.nodeAt? (.inside (folder ++ names)) = some .folder :=
        step_in_folder (own_of_file_name fits) (found.1 ▸ here)
      have first : names.foldlM t.step (.inside folder) = .ok (.inside (folder ++ names)) :=
        (ih others).mpr ⟨rfl, by simp [parent]⟩
      rw [first]
      exact (step_to_name fits).mpr found

theorem not_below_root (led : t.follow root = .ok .root) : ¬t.IsBelow root names node := by
  rintro ⟨some, named, spot, done, -⟩
  obtain ⟨name, rest, rfl⟩ := List.exists_cons_of_ne_nil some
  have fits := named name List.mem_cons_self
  rw [follow_under, led] at done
  obtain ⟨middle, first, -⟩ := ok_of_bind (x := t.step .root name) done
  rw [step, if_neg (own_of_file_name fits), if_neg (short_of_file_name fits)] at first
  simp [nodeAt?, Spot.down?] at first

/-- Below a folder stands what the tree has under the names of the folder and further names. -/
theorem is_below_iff (led : t.follow root = .ok (.inside folder)) :
    t.IsBelow root names node ↔ names ≠ [] ∧ (∀ name ∈ names, isFileName name = true) ∧
      t.nodes.get? (folder ++ names) = some node := by
  have there := there_of_follow led
  have goes : t.follow (root.under names) = names.foldlM t.step (.inside folder) := by
    rw [follow_under, led]
    rfl
  rw [IsBelow, goes]
  refine and_congr_right fun some => and_congr_right fun named => ?_
  have node? : t.nodeAt? (.inside (folder ++ names)) = t.nodes.get? (folder ++ names) := by
    rw [nodeAt?, not_above_append some named]
    rfl
  constructor
  · rintro ⟨spot, done, found⟩
    rw [((follow_names there named).mp done).1, node?] at found
    exact found
  · intro found
    rw [← node?] at found
    exact ⟨_, (follow_names there named).mpr ⟨rfl, by simp [found]⟩, found⟩

/-- What stands below a root, but not in the root itself, stands in a folder below it. -/
theorem folder_above (led : t.follow root = .ok (.inside folder))
    (below : t.IsBelow root names node) (deep : names.dropLast ≠ []) :
    t.IsBelow root names.dropLast .folder := by
  rw [is_below_iff led] at below ⊢
  obtain ⟨some, named, found⟩ := below
  have others : ∀ name ∈ names.dropLast, isFileName name = true := fun name member =>
    named name (List.dropLast_subset names member)
  have closed := t.closed (folder ++ names, node) ((t.nodes.get_eq_some_iff _ _).mp found)
  rw [List.dropLast_append_of_ne_nil some] at closed
  exact ⟨deep, others, closed (not_above_append deep others)⟩

theorem below_eq_some_iff {rest : List String} :
    below folder names = some rest ↔
      names = folder ++ rest ∧ rest.head?.any (· != "..") = true := by
  have drops : ∀ more, (folder ++ more).drop folder.length = more := by simp
  rw [below]
  constructor
  · intro found
    split at found
    · next within =>
      rw [Bool.and_eq_true, List.isPrefixOf_iff_prefix] at within
      obtain ⟨⟨more, rfl⟩, own⟩ := within
      rw [drops] at found own
      cases found
      exact ⟨rfl, own⟩
    · cases found
  · rintro ⟨rfl, own⟩
    rw [drops, own, if_pos (by simp)]

/-- The entries below a folder are what stands below a root that leads to it. -/
theorem entry_below_iff (led : t.follow root = .ok (.inside folder)) :
    (∃ e ∈ t.nodes.entries, e.2 = node ∧ below folder e.1 = some names) ↔
      t.IsBelow root names node := by
  rw [is_below_iff led]
  constructor
  · rintro ⟨⟨key, node⟩, member, rfl, within⟩
    obtain ⟨rfl, own⟩ := below_eq_some_iff.mp within
    have named := (t.named _ member).2
    rw [own_names_append own] at named
    refine ⟨?_, fun name here => named name (List.mem_append_right _ here), ?_⟩
    · rintro rfl
      cases own
    · exact (t.nodes.get_eq_some_iff _ _).mpr member
  · rintro ⟨some, named, found⟩
    refine ⟨(folder ++ names, node), (t.nodes.get_eq_some_iff _ _).mp found, rfl, ?_⟩
    obtain ⟨name, rest, rfl⟩ := List.exists_cons_of_ne_nil some
    have own := own_of_file_name (named name List.mem_cons_self)
    exact below_eq_some_iff.mpr ⟨rfl, by simp [own]⟩

end FileTree

end ContractGraph
