import ContractGraph.Files.Tree
import ContractGraph.Proofs.Outcome

/-!
# Resolved locations

A location that can be followed leads to what its resolved form names: each double dot takes the
folder before it along, which was there. A location that cannot be followed may still resolve to
something that is there, because resolving does not ask the files.
-/

namespace ContractGraph

set_option autoImplicit false

/-- The names that lead to a resolved location from where it starts. -/
def Location.Resolved.path (r : Location.Resolved) : List String :=
  List.replicate r.above ".." ++ r.names

/-- What a resolved location names from the working folder. -/
structure Location.Resolved.Inside (r : Location.Resolved) : Prop where
  free : r.rooted = false
  own : ∀ name ∈ r.names, name ≠ ".."

namespace Location.Resolved

variable {r : Resolved}

theorem step_rooted (r : Resolved) (part : String) : (r.step part).rooted = r.rooted := by
  unfold step
  repeat' split
  all_goals rfl

theorem Inside.step (h : r.Inside) (part : String) : (r.step part).Inside := by
  refine ⟨(step_rooted r part).trans h.free, ?_⟩
  intro name member
  unfold Resolved.step at member
  split at member
  · split at member
    · split at member
      · exact h.own name member
      · exact h.own name member
    · exact h.own name ((List.dropLast_sublist r.names).subset member)
  · next down =>
    rcases List.mem_append.mp member with old | new
    · exact h.own name old
    · rw [List.mem_singleton.mp new]
      exact down

theorem is_above_path (h : r.Inside) : isAbove r.path = true ↔ r.names = [] := by
  have dots : isAbove (List.replicate r.above "..") = true := by simp [isAbove]
  constructor
  · intro above
    rw [path, isAbove, List.all_append, Bool.and_eq_true] at above
    rw [List.eq_nil_iff_forall_not_mem]
    intro name member
    exact h.own name member (by simpa using List.all_eq_true.mp above.2 name member)
  · intro none
    rw [path, none, List.append_nil]
    exact dots

end Location.Resolved

theorem Location.resolve_rooted (l : Location) : l.resolve.rooted = (l.slashes != 0) := by
  have kept : ∀ (parts : List String) (r : Resolved),
      (parts.foldl Resolved.step r).rooted = r.rooted := by
    intro parts
    induction parts with
    | nil => exact fun _ => rfl
    | cons part rest ih => exact fun r => (ih _).trans (Resolved.step_rooted r part)
  exact kept l.parts _

namespace FileTree

variable {t : FileTree} {r : Location.Resolved} {spot next : Spot} {part : String}

theorem up_path (h : r.Inside) : (Spot.inside r.path).up = .inside (r.step "..").path := by
  rw [Spot.up]
  by_cases none : r.names = []
  · rw [if_pos ((Location.Resolved.is_above_path h).mpr none)]
    simp [Location.Resolved.step, Location.Resolved.path, none, h.free, List.replicate_succ']
  · rw [if_neg (mt (Location.Resolved.is_above_path h).mp none)]
    simp [Location.Resolved.step, Location.Resolved.path, none, List.dropLast_append_of_ne_nil]

/-- A step from what a location names is one to what the location names with the part. -/
theorem step_path (h : r.Inside) (done : t.step (.inside r.path) part = .ok next) :
    next = .inside (r.step part).path := by
  rw [step] at done
  split at done
  · cases done
  · split at done
    · next up =>
      cases done
      rw [up, up_path h]
    · next down =>
      split at done
      · cases done
      · simp only [Spot.down?] at done
        split at done
        · cases done
          simp [Location.Resolved.step, Location.Resolved.path, down]
        · cases done

theorem follow_from_path {parts : List String} (h : r.Inside)
    (done : parts.foldlM t.step (.inside r.path) = .ok next) :
    next = .inside (parts.foldl Location.Resolved.step r).path := by
  induction parts generalizing r with
  | nil =>
    cases done
    rfl
  | cons part rest ih =>
    rw [List.foldlM_cons] at done
    obtain ⟨middle, first, later⟩ := ok_of_bind done
    rw [step_path h first] at later
    exact ih (h.step part) later

theorem step_from_root (done : t.step .root part = .ok next) : next = .root := by
  rw [step] at done
  split at done
  · cases done
  · split at done
    · cases done
      rfl
    · split at done <;> cases done

theorem follow_from_root {parts : List String} (done : parts.foldlM t.step .root = .ok next) :
    next = .root := by
  induction parts with
  | nil =>
    cases done
    rfl
  | cons part rest ih =>
    rw [List.foldlM_cons] at done
    obtain ⟨middle, first, later⟩ := ok_of_bind done
    rw [step_from_root first] at later
    exact ih later

/-- What a resolved location names. -/
def spotOf (r : Location.Resolved) : Spot := if r.rooted then .root else .inside r.path

/-- A location that can be followed leads to what its resolved form names. -/
theorem spot_of_follow {l : Location} (done : t.follow l = .ok spot) : spot = spotOf l.resolve := by
  rw [follow, start] at done
  rw [spotOf, l.resolve_rooted]
  by_cases free : l.slashes = 0
  · rw [if_pos free] at done
    have inside : (⟨l.slashes != 0, 0, []⟩ : Location.Resolved).Inside :=
      ⟨by simp [free], by simp⟩
    rw [follow_from_path inside done]
    simp [free, Location.resolve]
  · rw [if_neg free] at done
    rw [follow_from_root done]
    simp [free]

/-- What stands in a folder has the folder above it. -/
theorem step_in_folder {names : List String} {name : String} {node : FileNode}
    (own : name ≠ "..") (there : t.nodeAt? (.inside (names ++ [name])) = some node) :
    t.nodeAt? (.inside names) = some .folder := by
  have below : isAbove (names ++ [name]) = false := by simp [isAbove, own]
  rw [nodeAt?, below] at there
  have parent := t.closed (names ++ [name], node) ((t.nodes.get_eq_some_iff _ _).mp there)
  rw [nodeAt?]
  by_cases above : isAbove names = true
  · rw [if_pos above]
  · rw [if_neg above]
    simpa [List.dropLast_concat, above] using parent

theorem folder_up (folder : t.nodeAt? spot = some .folder) : t.nodeAt? spot.up = some .folder := by
  cases spot with
  | root => rfl
  | inside names =>
    rw [Spot.up]
    by_cases above : isAbove names = true
    · have further : isAbove (names ++ [".."]) = true := by simpa [isAbove] using above
      rw [if_pos above, nodeAt?, if_pos further]
    · rw [nodeAt?, if_neg above] at folder
      have parent := t.closed (names, .folder) ((t.nodes.get_eq_some_iff _ _).mp folder)
      rw [if_neg above, nodeAt?]
      split
      · rfl
      · next below => exact parent (Bool.not_eq_true _ ▸ below)

/-- A location that can be followed leads to something that is there. -/
theorem there_of_follow {l : Location} (done : t.follow l = .ok spot) : (t.nodeAt? spot).isSome := by
  refine fold_keeps (fun spot => (t.nodeAt? spot).isSome = true) ?_ ?_ done
  · intro part _ spot next _ done
    rw [step] at done
    split at done
    · cases done
    · next folder =>
      split at done
      · cases done
        simp [folder_up (by simpa using folder)]
      · split at done
        · cases done
        · split at done
          · cases done
          · split at done
            · next there =>
              cases done
              exact there
            · cases done
  · rw [start]
    split <;> rfl

end FileTree

end ContractGraph
