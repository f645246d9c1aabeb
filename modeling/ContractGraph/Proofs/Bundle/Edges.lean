import ContractGraph.Bundle.Pack
import ContractGraph.Proofs.Collection.Order
import ContractGraph.Proofs.Occurrences

/-!
# Edges of bundles

Packing resolves the names of the packed components once more. In a manifest that was built this
gives back its edges: those with both ends packed, each once and in lexicographic order.
-/

namespace ContractGraph

set_option autoImplicit false

namespace Bundle

theorem edge_at_most_iff (e f : String × String) :
    edgeAtMost e f = true ↔ e.1 < f.1 ∨ e.1 = f.1 ∧ e.2 ≤ f.2 := by
  by_cases same : e.1 = f.1
  · simp [edgeAtMost, same, Text.atMost]
  · have strict : e.1 ≤ f.1 ↔ e.1 < f.1 := by
      constructor
      · intro le
        exact Text.lt_of_at_most (decide_eq_true le) same
      · intro lt
        exact String.not_lt.mp (String.lt_asymm lt)
    simp [edgeAtMost, same, Text.atMost, strict]

theorem edge_at_most_trans (d e f : String × String) (first : edgeAtMost d e = true)
    (second : edgeAtMost e f = true) : edgeAtMost d f = true := by
  rw [edge_at_most_iff] at first second ⊢
  rcases first with before | ⟨same, before⟩
  · rcases second with next | ⟨equal, -⟩
    · exact .inl (String.lt_trans before next)
    · exact .inl (equal ▸ before)
  · rcases second with next | ⟨equal, next⟩
    · exact .inl (same ▸ next)
    · exact .inr ⟨same.trans equal, String.le_trans before next⟩

theorem edge_at_most_total (e f : String × String) :
    (edgeAtMost e f || edgeAtMost f e) = true := by
  by_cases same : e.1 = f.1
  · simpa [edgeAtMost, same] using Text.at_most_total e.2 f.2
  · simpa [edgeAtMost, same, Ne.symm same] using Text.at_most_total e.1 f.1

theorem lex_of_edge_at_most {e f : String × String} (ordered : edgeAtMost e f = true)
    (apart : e ≠ f) : Prod.Lex (· < ·) (· < ·) e f := by
  rw [Prod.lex_def]
  rcases (edge_at_most_iff e f).mp ordered with before | ⟨same, before⟩
  · exact .inl before
  · refine .inr ⟨same, Text.lt_of_at_most (decide_eq_true before) ?_⟩
    intro equal
    exact apart (Prod.ext same equal)

theorem sorted_edges_ascend (edges : List (String × String)) :
    (edges.eraseDups.mergeSort edgeAtMost).Pairwise (Prod.Lex (· < ·) (· < ·)) := by
  have ordered := List.pairwise_mergeSort edge_at_most_trans edge_at_most_total edges.eraseDups
  have apart : (edges.eraseDups.mergeSort edgeAtMost).Nodup :=
    (List.mergeSort_perm _ _).nodup_iff.mpr (each_once edges)
  refine (List.pairwise_and_iff.mpr ⟨ordered, apart⟩).imp ?_
  intro e f given
  exact lex_of_edge_at_most given.1 given.2

end Bundle

namespace Manifest

open ContractGraph.Bundle (edgesFrom edgesAmong edgeAtMost)

variable {contracts : List Contract} {m : Manifest}

/-- The edges that leave a component and stay inside some keys, in the order of its names. -/
def edgesInside (m : Manifest) (packed : List String) (key : String) : List (String × String) :=
  (((m.scope 0).targetsOf key).filter (· ∈ packed)).map fun target => (key, target)

namespace Built

/-- Packing finds the same meaning of every name as the walk. -/
theorem edges_from (b : Built contracts m) (packed : List String) (key : String) :
    edgesFrom m.resolver m packed key = .ok (m.edgesInside packed key) := by
  have names : ((m.components.get? key).map (·.dependencies)).getD [] =
      ((m.scope 0).namesOf key).map .str := b.dependencies_of 0 key
  have meaning : ∀ name ∈ ((m.scope 0).namesOf key).map Json.str,
      (((Resolver.ofKeys m.components.keys).findValue name key).map fun t => t.map (·.key)) =
        .ok ((Resolver.ofKeys m.components.keys).resolve name.text (some key)) := by
    intro value member
    obtain ⟨name, -, rfl⟩ := List.mem_map.mp member
    rfl
  rw [edgesFrom, names]
  split
  · next empty =>
    rw [edgesInside, Collection.Scope.targetsOf, List.map_eq_nil_iff.mp (List.isEmpty_iff.mp empty)]
    rfl
  · rw [b.resolver_eq]
    simp only [bind, Except.bind, map_each_ok meaning]
    apply congrArg Except.ok
    rw [edgesInside, Collection.Scope.targetsOf, List.filter_filterMap, List.map_filterMap,
      List.map_map, List.filterMap_map]
    congr 1
    funext name
    have same : (Resolver.ofKeys m.components.keys).resolve name (some key) =
        (m.scope 0).resolver.resolve name (some key) := rfl
    simp only [Function.comp_apply, Json.text, same]
    rcases (m.scope 0).resolver.resolve name (some key) with _ | target
    · rfl
    · by_cases inside : target ∈ packed
      · simp [Option.filter_some, inside]
      · simp [Option.filter_some, inside]

theorem edges_among (b : Built contracts m) (packed : List String) :
    edgesAmong m packed =
      .ok ((packed.flatMap (m.edgesInside packed)).eraseDups.mergeSort edgeAtMost) := by
  rw [edgesAmong, map_each_ok fun key _ => b.edges_from packed key]
  rfl

theorem mem_edges_iff (b : Built contracts m) {packed : List String}
    {edges : List (String × String)} (among : edgesAmong m packed = .ok edges)
    {user target : String} :
    (user, target) ∈ edges ↔ user ∈ packed ∧ target ∈ packed ∧ m.UsedBy user target := by
  rw [b.edges_among] at among
  cases among
  rw [List.mem_mergeSort, List.mem_eraseDups, List.mem_flatMap]
  constructor
  · intro given
    rcases given with ⟨key, inside, member⟩
    obtain ⟨other, kept, same⟩ := List.mem_map.mp member
    cases same
    obtain ⟨used, within⟩ := List.mem_filter.mp kept
    exact ⟨inside, of_decide_eq_true within, (b.mem_targets_iff 0 user target).mp used⟩
  · intro given
    rcases given with ⟨first, second, used⟩
    refine ⟨user, first, List.mem_map.mpr ⟨target, List.mem_filter.mpr ⟨?_, ?_⟩, rfl⟩⟩
    · exact (b.mem_targets_iff 0 user target).mpr used
    · exact decide_eq_true second

theorem edges_ascend (b : Built contracts m) {packed : List String}
    {edges : List (String × String)} (among : edgesAmong m packed = .ok edges) :
    edges.Pairwise (Prod.Lex (· < ·) (· < ·)) := by
  rw [b.edges_among] at among
  cases among
  exact Bundle.sorted_edges_ascend _

end Built

end Manifest

end ContractGraph
