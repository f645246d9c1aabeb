import ContractGraph.Proofs.Graph.Distance

/-!
# Breadth-first order

The order in which a walk without a bound on its room meets the vertices of a graph, each with its
level: first the vertices of the queue that were not seen, each once, and then the same for all
their successors. The level of a vertex is its distance from the start.
-/

namespace ContractGraph.Graph

set_option autoImplicit false

variable {α : Type} [DecidableEq α]

/-- The items of a list that are not in another one, each once. -/
def newTo (seen : List α) : List α → List α
  | [] => []
  | a :: rest => if a ∈ seen then newTo seen rest else a :: newTo (seen ++ [a]) rest

theorem mem_new_to_iff {seen queue : List α} {v : α} :
    v ∈ newTo seen queue ↔ v ∈ queue ∧ v ∉ seen := by
  induction queue generalizing seen with
  | nil => simp [newTo]
  | cons a rest ih =>
    rw [newTo]
    by_cases known : a ∈ seen
    · rw [if_pos known, ih]
      constructor
      · intro given
        rcases given with ⟨member, unseen⟩
        exact ⟨List.mem_cons_of_mem a member, unseen⟩
      · intro given
        rcases given with ⟨member, unseen⟩
        rcases List.mem_cons.mp member with rfl | member
        · exact absurd known unseen
        · exact ⟨member, unseen⟩
    · rw [if_neg known, List.mem_cons, ih]
      constructor
      · intro given
        rcases given with rfl | ⟨member, unseen⟩
        · exact ⟨List.mem_cons_self, known⟩
        · exact ⟨List.mem_cons_of_mem a member, fun before => unseen (by simp [before])⟩
      · intro given
        rcases given with ⟨member, unseen⟩
        by_cases same : v = a
        · exact .inl same
        · have later : v ∈ rest := (List.mem_cons.mp member).resolve_left same
          exact .inr ⟨later, by simp [unseen, same]⟩

theorem new_to_nodup (seen queue : List α) : (newTo seen queue).Nodup := by
  induction queue generalizing seen with
  | nil => exact List.nodup_nil
  | cons a rest ih =>
    rw [newTo]
    split
    · exact ih seen
    · refine List.nodup_cons.mpr ⟨?_, ih _⟩
      intro again
      exact (mem_new_to_iff.mp again).2 (by simp)

theorem new_to_filter {p : α → Bool} {seen queue : List α} (kept : ∀ a, a ∉ seen → p a = true) :
    newTo seen (queue.filter p) = newTo seen queue := by
  induction queue generalizing seen with
  | nil => rfl
  | cons a rest ih =>
    by_cases known : a ∈ seen
    · have without : newTo seen (a :: rest) = newTo seen rest := by rw [newTo, if_pos known]
      rw [without, List.filter_cons]
      split
      · rw [newTo, if_pos known, ih kept]
      · exact ih kept
    · have keptLater : ∀ b, b ∉ seen ++ [a] → p b = true := by
        intro b unseen
        exact kept b fun before => unseen (List.mem_append_left [a] before)
      rw [List.filter_cons_of_pos (kept a known), newTo, newTo, if_neg known, if_neg known,
        ih keptLater]

/-- What was seen before does not matter in a queue. -/
theorem new_to_congr {seen left right : List α}
    (same : left.filter (· ∉ seen) = right.filter (· ∉ seen)) :
    newTo seen left = newTo seen right := by
  have unseen : ∀ a, a ∉ seen → decide (a ∉ seen) = true := by
    intro a absent
    exact decide_eq_true absent
  have first : newTo seen (left.filter (· ∉ seen)) = newTo seen left := new_to_filter unseen
  rw [← first, same, new_to_filter unseen]

/-- The vertices that are new at a level and at the given number of levels below it. -/
def spread (successors : α → List α) : (below level : Nat) → (seen queue : List α) → List (α × Nat)
  | 0, level, seen, queue => (newTo seen queue).map fun v => (v, level)
  | below + 1, level, seen, queue =>
    let here := newTo seen queue
    (here.map fun v => (v, level)) ++
      spread successors below (level + 1) (seen ++ here) (here.flatMap successors)

theorem spread_congr {successors : α → List α} {below level : Nat} {seen left right : List α}
    (same : left.filter (· ∉ seen) = right.filter (· ∉ seen)) :
    spread successors below level seen left = spread successors below level seen right := by
  have news := new_to_congr same
  cases below with
  | zero => rw [spread, spread, news]
  | succ below => rw [spread, spread, news]

theorem level_le_of_mem_spread {successors : α → List α} {below level : Nat}
    {seen queue : List α} {v : α × Nat} (member : v ∈ spread successors below level seen queue) :
    level ≤ v.2 := by
  induction below generalizing level seen queue with
  | zero =>
    obtain ⟨u, -, rfl⟩ := List.mem_map.mp member
    exact Nat.le_refl level
  | succ below ih =>
    rcases List.mem_append.mp member with here | later
    · obtain ⟨u, -, rfl⟩ := List.mem_map.mp here
      exact Nat.le_refl level
    · exact Nat.le_of_succ_le (ih later)

theorem spread_levels_ascend (successors : α → List α) (below level : Nat)
    (seen queue : List α) :
    (spread successors below level seen queue).Pairwise fun v w => v.2 ≤ w.2 := by
  have flat : ∀ (vertices : List α) (n : Nat),
      (vertices.map fun v => (v, n)).Pairwise fun v w => v.2 ≤ w.2 := by
    intro vertices n
    exact List.pairwise_map.mpr (List.pairwise_of_forall fun _ _ => Nat.le_refl n)
  induction below generalizing level seen queue with
  | zero => exact flat _ level
  | succ below ih =>
    refine List.pairwise_append.mpr ⟨flat _ level, ih _ _ _, ?_⟩
    intro v here w later
    obtain ⟨u, -, rfl⟩ := List.mem_map.mp here
    exact Nat.le_of_succ_le (level_le_of_mem_spread later)

omit [DecidableEq α] in
/-- Of vertices in ascending order of their levels a cut keeps those above any that it keeps. -/
theorem mem_take_of_above {order : List (α × Nat)} {count : Nat} {v w : α × Nat}
    (ascending : order.Pairwise fun v w => v.2 ≤ w.2) (kept : w ∈ order.take count)
    (member : v ∈ order) (above : v.2 < w.2) : v ∈ order.take count := by
  have parts := List.take_append_drop count order
  rw [← parts] at ascending member
  rcases List.mem_append.mp member with first | later
  · exact first
  · have below := (List.pairwise_append.mp ascending).2.2 w kept v later
    omega

/-- Going further down adds vertices at the end of the order. -/
theorem spread_deeper (successors : α → List α) {below deeper : Nat} (bound : below ≤ deeper)
    (level : Nat) (seen queue : List α) :
    spread successors below level seen queue <+: spread successors deeper level seen queue := by
  induction below generalizing deeper level seen queue with
  | zero =>
    cases deeper with
    | zero => exact List.prefix_refl _
    | succ deeper => exact List.prefix_append _ _
  | succ below ih =>
    cases deeper with
    | zero => exact absurd bound (Nat.not_succ_le_zero below)
    | succ deeper =>
      have further := ih (Nat.le_of_succ_le_succ bound) (level + 1) (seen ++ newTo seen queue)
        ((newTo seen queue).flatMap successors)
      exact (List.prefix_append_right_inj _).mpr further

theorem spread_distinct (successors : α → List α) (below level : Nat) (seen queue : List α) :
    ((spread successors below level seen queue).map (·.1)).Nodup ∧
      ∀ v ∈ (spread successors below level seen queue).map (·.1), v ∉ seen := by
  have plain : ∀ (vertices : List α) (n : Nat),
      (vertices.map fun v => (v, n)).map (·.1) = vertices := by
    intro vertices n
    rw [List.map_map]
    exact List.map_id vertices
  induction below generalizing level seen queue with
  | zero =>
    rw [spread, plain]
    exact ⟨new_to_nodup seen queue, fun v member => (mem_new_to_iff.mp member).2⟩
  | succ below ih =>
    obtain ⟨distinct, fresh⟩ := ih (level + 1) (seen ++ newTo seen queue)
      ((newTo seen queue).flatMap successors)
    rw [spread, List.map_append, plain]
    constructor
    · refine List.nodup_append.mpr ⟨new_to_nodup seen queue, distinct, ?_⟩
      intro v here w later same
      subst same
      exact fresh v later (List.mem_append_right seen here)
    · intro v member before
      rcases List.mem_append.mp member with here | later
      · exact (mem_new_to_iff.mp here).2 before
      · exact fresh v later (List.mem_append_left _ before)

/-- What holds of the seen vertices and of the queue when a level starts. -/
structure Frontier (successors : α → List α) (start : α) (level : Nat) (seen queue : List α) :
    Prop where
  seen_iff : ∀ v, v ∈ seen ↔ ∃ n < level, IsDistance (fun u w => w ∈ successors u) start v n
  reached : ∀ v ∈ queue, Path (fun u w => w ∈ successors u) start level v
  complete : ∀ v, IsDistance (fun u w => w ∈ successors u) start v level → v ∈ queue

namespace Frontier

variable {successors : α → List α} {start : α} {level : Nat} {seen queue : List α}

omit [DecidableEq α] in
theorem initial : Frontier successors start 0 [] [start] where
  seen_iff v := by simp
  reached v member := by
    have same : v = start := List.mem_singleton.mp member
    exact same ▸ .start
  complete v distance := by
    cases distance.1
    exact List.mem_singleton_self start

/-- New at a level are the vertices at the distance of the level. -/
theorem mem_new_iff (f : Frontier successors start level seen queue) (v : α) :
    v ∈ newTo seen queue ↔ IsDistance (fun u w => w ∈ successors u) start v level := by
  rw [mem_new_to_iff]
  constructor
  · intro given
    rcases given with ⟨member, unseen⟩
    obtain ⟨n, bound, distance⟩ := distance_of_path (f.reached v member)
    have last : n = level := by
      apply Nat.le_antisymm bound
      apply Nat.le_of_not_lt
      intro less
      exact unseen ((f.seen_iff v).mpr ⟨n, less, distance⟩)
    exact last ▸ distance
  · intro distance
    refine ⟨f.complete v distance, ?_⟩
    intro before
    obtain ⟨n, less, other⟩ := (f.seen_iff v).mp before
    have same := distance_unique other distance
    omega

theorem next (f : Frontier successors start level seen queue) :
    Frontier successors start (level + 1) (seen ++ newTo seen queue)
      ((newTo seen queue).flatMap successors) where
  seen_iff v := by
    rw [List.mem_append, f.seen_iff, f.mem_new_iff]
    constructor
    · intro given
      rcases given with ⟨n, less, distance⟩ | distance
      · exact ⟨n, by omega, distance⟩
      · exact ⟨level, by omega, distance⟩
    · intro given
      rcases given with ⟨n, less, distance⟩
      by_cases last : n = level
      · exact .inr (last ▸ distance)
      · exact .inl ⟨n, by omega, distance⟩
  reached v member := by
    obtain ⟨u, here, last⟩ := List.mem_flatMap.mp member
    exact .step ((f.mem_new_iff u).mp here).1 last
  complete v distance := by
    obtain ⟨u, before, last⟩ := distance_before distance
    exact List.mem_flatMap.mpr ⟨u, (f.mem_new_iff u).mpr before, last⟩

/-- The walk meets exactly the vertices within its levels, each at its distance. -/
theorem mem_spread_iff (f : Frontier successors start level seen queue) (below : Nat) (v : α)
    (n : Nat) :
    (v, n) ∈ spread successors below level seen queue ↔
      level ≤ n ∧ n ≤ level + below ∧ IsDistance (fun u w => w ∈ successors u) start v n := by
  have here : ∀ {level : Nat} {seen queue : List α},
      Frontier successors start level seen queue →
        ((v, n) ∈ (newTo seen queue).map (fun u => (u, level)) ↔
          n = level ∧ IsDistance (fun u w => w ∈ successors u) start v n) := by
    intro level seen queue f
    rw [List.mem_map]
    constructor
    · intro given
      rcases given with ⟨u, member, same⟩
      cases same
      exact ⟨rfl, (f.mem_new_iff v).mp member⟩
    · intro given
      rcases given with ⟨rfl, distance⟩
      exact ⟨v, (f.mem_new_iff v).mpr distance, rfl⟩
  induction below generalizing level seen queue with
  | zero =>
    rw [spread, here f]
    constructor
    · intro given
      rcases given with ⟨rfl, distance⟩
      exact ⟨Nat.le_refl n, Nat.le_refl n, distance⟩
    · intro given
      rcases given with ⟨least, most, distance⟩
      exact ⟨by omega, distance⟩
  | succ below ih =>
    rw [spread, List.mem_append]
    constructor
    · intro given
      rcases given with first | later
      · obtain ⟨rfl, distance⟩ := (here f).mp first
        exact ⟨Nat.le_refl n, by omega, distance⟩
      · obtain ⟨least, most, distance⟩ := (ih f.next).mp later
        exact ⟨by omega, by omega, distance⟩
    · intro given
      rcases given with ⟨least, most, distance⟩
      by_cases first : n = level
      · exact .inl ((here f).mpr ⟨first, distance⟩)
      · exact .inr ((ih f.next).mpr ⟨by omega, by omega, distance⟩)

end Frontier

theorem mem_spread_start_iff {successors : α → List α} {start v : α} {depth n : Nat} :
    (v, n) ∈ spread successors depth 0 [] [start] ↔
      n ≤ depth ∧ IsDistance (fun u w => w ∈ successors u) start v n := by
  rw [Frontier.initial.mem_spread_iff depth v n]
  constructor
  · intro given
    rcases given with ⟨-, most, distance⟩
    exact ⟨by omega, distance⟩
  · intro given
    rcases given with ⟨most, distance⟩
    exact ⟨Nat.zero_le n, by omega, distance⟩

end ContractGraph.Graph
