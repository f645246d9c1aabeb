import Mathlib.Data.List.Basic
import Mathlib.Data.List.Induction

/-!
# First occurrences

Of equal items the first one stays when duplicates are dropped, and of items with one key the first
one counts. Both are read from the end: a last item that is known changes nothing, and a new one
comes last.
-/

namespace ContractGraph

set_option autoImplicit false

variable {α β κ : Type}

theorem append_fresh {items : List α} {a : α} (distinct : items.Nodup) (fresh : a ∉ items) :
    (items ++ [a]).Nodup := by
  refine List.nodup_append.mpr ⟨distinct, List.pairwise_singleton _ a, ?_⟩
  intro b before c last equal
  have same : c = a := List.mem_singleton.mp last
  exact fresh (same ▸ equal ▸ before)

section Equal

variable [BEq β] [LawfulBEq β]

/-- Blocks that share no item lose their duplicates one by one. -/
theorem erase_dups_flat_map {f : α → List β} {items : List α}
    (apart : items.Pairwise fun a b => ∀ c ∈ f a, c ∉ f b) :
    (items.flatMap f).eraseDups = items.flatMap fun a => (f a).eraseDups := by
  induction items with
  | nil => rfl
  | cons a rest ih =>
    obtain ⟨first, later⟩ := List.pairwise_cons.mp apart
    have kept : (rest.flatMap f).removeAll (f a) = rest.flatMap f := by
      apply List.filter_eq_self.mpr
      intro c member
      obtain ⟨b, listed, own⟩ := List.mem_flatMap.mp member
      have foreign : c ∉ f a := fun shared => first b listed c shared own
      simpa using foreign
    rw [List.flatMap_cons, List.flatMap_cons, List.eraseDups_append, kept, ih later]

variable [BEq α] [LawfulBEq α]

theorem erase_dups_append_one (items : List α) (a : α) :
    (items ++ [a]).eraseDups =
      if a ∈ items then items.eraseDups else items.eraseDups ++ [a] := by
  rw [List.eraseDups_append]
  by_cases known : a ∈ items
  · simp [List.removeAll, known]
  · simp [List.removeAll, known, List.eraseDups_cons]

theorem each_once (items : List α) : items.eraseDups.Nodup := by
  induction items using List.reverseRecOn with
  | nil => exact List.nodup_nil
  | append_singleton items a ih =>
    rw [erase_dups_append_one]
    by_cases known : a ∈ items
    · rw [if_pos known]
      exact ih
    · rw [if_neg known]
      exact append_fresh ih (mt List.mem_eraseDups.mp known)

/-- Duplicates are dropped before or after a pass that takes no two items to one result. -/
theorem erase_dups_filter_map {f : α → Option β}
    (apart : ∀ a b c, f a = some c → f b = some c → a = b) (items : List α) :
    (items.filterMap f).eraseDups = items.eraseDups.filterMap f := by
  induction items using List.reverseRecOn with
  | nil => rfl
  | append_singleton items a ih =>
    rw [List.filterMap_append, erase_dups_append_one]
    cases made : f a with
    | none =>
      rw [List.filterMap_cons_none made, List.filterMap_nil, List.append_nil, ih]
      split
      · rfl
      · rw [List.filterMap_append, List.filterMap_cons_none made, List.filterMap_nil,
          List.append_nil]
    | some b =>
      have made_before : b ∈ items.filterMap f ↔ a ∈ items := by
        constructor
        · intro member
          obtain ⟨other, listed, same⟩ := List.mem_filterMap.mp member
          exact apart other a b same made ▸ listed
        · intro listed
          exact List.mem_filterMap.mpr ⟨a, listed, made⟩
      rw [List.filterMap_cons_some made, List.filterMap_nil, erase_dups_append_one, ih]
      by_cases known : a ∈ items
      · rw [if_pos known, if_pos (made_before.mpr known)]
      · rw [if_neg known, if_neg (mt made_before.mp known), List.filterMap_append,
          List.filterMap_cons_some made, List.filterMap_nil]

theorem erase_dups_map {f : α → β} (apart : ∀ a b, f a = f b → a = b) (items : List α) :
    (items.map f).eraseDups = items.eraseDups.map f := by
  rw [← List.filterMap_eq_map, erase_dups_filter_map]
  intro a b c first second
  exact apart a b ((Option.some.inj first).trans (Option.some.inj second).symm)

end Equal

section Keyed

variable [BEq κ] [LawfulBEq κ]

/-- The first item with each key, in the order in which the keys first occur. -/
def firstOfEach (key : α → κ) (items : List α) : List α :=
  ((items.map key).eraseDups).filterMap fun k => items.find? fun a => key a == k

theorem first_of_each_append_one (key : α → κ) (items : List α) (a : α) :
    firstOfEach key (items ++ [a]) =
      if key a ∈ items.map key then firstOfEach key items else firstOfEach key items ++ [a] := by
  have before : ((items.map key).eraseDups.filterMap fun k =>
      (items ++ [a]).find? fun b => key b == k) = firstOfEach key items := by
    apply List.filterMap_congr
    intro k member
    obtain ⟨b, listed, rfl⟩ := List.mem_map.mp (List.mem_eraseDups.mp member)
    have found : (items.find? fun c => key c == key b).isSome :=
      List.find?_isSome.mpr ⟨b, listed, beq_self_eq_true (key b)⟩
    rw [List.find?_append, Option.or_of_isSome found]
  rw [firstOfEach, List.map_append, List.map_singleton, erase_dups_append_one]
  by_cases known : key a ∈ items.map key
  · rw [if_pos known, if_pos known, before]
  · have fresh : (items.find? fun b => key b == key a) = none := by
      apply List.find?_eq_none.mpr
      intro b listed same
      exact known (eq_of_beq same ▸ List.mem_map_of_mem listed)
    rw [if_neg known, if_neg known, List.filterMap_append, before]
    simp [List.find?_append, fresh]

theorem map_first_of_each (key : α → κ) (items : List α) :
    (firstOfEach key items).map key = (items.map key).eraseDups := by
  induction items using List.reverseRecOn with
  | nil => rfl
  | append_singleton items a ih =>
    rw [first_of_each_append_one, List.map_append, List.map_singleton, erase_dups_append_one]
    by_cases known : key a ∈ items.map key
    · rw [if_pos known, if_pos known, ih]
    · rw [if_neg known, if_neg known, List.map_append, ih, List.map_singleton]

example : firstOfEach (fun use : String × String => use.2)
    [("a", "x"), ("b", "y"), ("c", "x")] = [("a", "x"), ("b", "y")] := by decide

end Keyed

end ContractGraph
