/-!
# Distances along edges

The distance of a vertex from a start is the length of a shortest path. Edges are any relation, so
a path may run through a cycle or stay at a vertex that has an edge to itself.
-/

namespace ContractGraph.Graph

set_option autoImplicit false

variable {α : Type} {edge : α → α → Prop} {start v : α}

/-- Some path of the given length leads from the start to the vertex. -/
inductive Path (edge : α → α → Prop) (start : α) : Nat → α → Prop where
  | start : Path edge start 0 start
  | step {n : Nat} {u v : α} (path : Path edge start n u) (last : edge u v) :
      Path edge start (n + 1) v

theorem path_mono {wider : α → α → Prop} (within : ∀ u v, edge u v → wider u v) {n : Nat}
    (path : Path edge start n v) : Path wider start n v := by
  induction path with
  | start => exact .start
  | step _ last ih => exact .step ih (within _ _ last)

def IsDistance (edge : α → α → Prop) (start v : α) (n : Nat) : Prop :=
  Path edge start n v ∧ ∀ k, Path edge start k v → n ≤ k

theorem distance_unique {n k : Nat} (first : IsDistance edge start v n)
    (second : IsDistance edge start v k) : n = k :=
  Nat.le_antisymm (first.2 k second.1) (second.2 n first.1)

theorem distance_of_path {n : Nat} (path : Path edge start n v) :
    ∃ k ≤ n, IsDistance edge start v k := by
  induction n using Nat.strongRecOn with
  | ind n ih =>
    by_cases shorter : ∃ k < n, Path edge start k v
    · rcases shorter with ⟨k, less, short⟩
      obtain ⟨j, bound, distance⟩ := ih k less short
      exact ⟨j, by omega, distance⟩
    · refine ⟨n, Nat.le_refl n, path, ?_⟩
      intro k other
      apply Nat.le_of_not_lt
      intro less
      exact shorter ⟨k, less, other⟩

/-- A vertex lies within one edge when it is the start or next to it. -/
theorem within_one_iff : (∃ n ≤ 1, IsDistance edge start v n) ↔ v = start ∨ edge start v := by
  constructor
  · intro given
    rcases given with ⟨n, bound, path, -⟩
    cases path with
    | start => exact .inl rfl
    | step path last =>
      cases path with
      | start => exact .inr last
      | step => omega
  · intro given
    rcases given with rfl | last
    · exact ⟨0, by omega, .start, fun _ _ => Nat.zero_le _⟩
    · exact distance_of_path (.step .start last)

/-- Before its last edge a shortest path is a shortest path. -/
theorem distance_before {n : Nat} (distance : IsDistance edge start v (n + 1)) :
    ∃ u, IsDistance edge start u n ∧ edge u v := by
  rcases distance with ⟨path, least⟩
  cases path with
  | @step _ u _ path last =>
    refine ⟨u, ⟨path, ?_⟩, last⟩
    intro k other
    have longer := least (k + 1) (.step other last)
    omega

end ContractGraph.Graph
