import ContractGraph.Proofs.Collection.Order

/-!
# Where a walk leaves the graph

The builder notes the key that a name means, while a walk looks that key up once more and goes on to
the first key with its normal form. So a collection of depth one holds a key and the components that
note it exactly when each of them is found under itself, and it does not when a second key spells
the path of an earlier one in another way.
-/

namespace ContractGraph.Manifest

set_option autoImplicit false

open ContractGraph.Graph (IsDistance)

variable {contracts : List Contract} {m : Manifest}

theorem Built.mem_reach_one_iff (b : Built contracts m) {start v : String} :
    v ∈ (m.reach 1 start).map (·.1) ↔ v = start ∨ ∃ target, m.UsedBy start target ∧
      (Resolver.ofKeys m.components.keys).lookup target = some v := by
  have near : (∃ n ≤ 1, IsDistance (fun u w => w ∈ (m.scope 0).successorsOf u) start v n) ↔
      v = start ∨ v ∈ (m.scope 0).successorsOf start := Graph.within_one_iff
  rw [← b.mem_successors_iff 0 start v, ← near, List.mem_map]
  constructor
  · intro given
    rcases given with ⟨⟨u, n⟩, member, rfl⟩
    exact ⟨n, Graph.mem_spread_start_iff.mp member⟩
  · intro given
    rcases given with ⟨n, within, distance⟩
    exact ⟨(v, n), Graph.mem_spread_start_iff.mpr ⟨within, distance⟩, rfl⟩

/-- With room for all components, a collection of depth one visits the first key with the normal
form of the given one and what is found under the components that note that key. These are the
given key and the components that note it just when all of them are found under themselves. -/
theorem neighbours_visited_iff {now : String} {hasher : Hasher} {withIndex : Bool}
    (built : (build now hasher withIndex contracts).outcome = .ok m)
    (named : ∀ c ∈ contracts, c.entryId ≠ "") :
    ∃ r, m.resolver = .ok r ∧ ∀ key ∈ m.components.keys,
      ∀ (nodes : Nat) (room : 1 ≤ nodes), m.components.size ≤ nodes →
        ∃ c, (m.collect key (.counts 1 nodes room)).outcome = .ok c ∧ c.truncated = false ∧
          (∀ v, v ∈ c.visitedIds ↔ ∃ first, r.lookup key = some first ∧
            (v = first ∨ ∃ target, m.UsedBy first target ∧ r.lookup target = some v)) ∧
          ((∀ v, v ∈ c.visitedIds ↔ v = key ∨ m.UsedBy key v) ↔
            ∀ v, v = key ∨ m.UsedBy key v → r.lookup v = some v) := by
  have b := build_built built
  refine ⟨_, b.resolver_eq, ?_⟩
  intro key member nodes room enough
  obtain ⟨first, found⟩ := Resolver.lookup_key (b.keys_named named key member) member
  have fixed := Resolver.lookup_found found
  have order := b.collect_order named found 1 nodes room
  have fits : (m.reach 1 first).length ≤ nodes :=
    Nat.le_trans (b.reach_length 1 fixed) enough
  rw [List.take_of_length_le fits] at order
  refine ⟨_, order, decide_eq_false (Nat.not_lt_of_le fits), ?_, ?_⟩
  · intro v
    rw [Collection.visitedIds, b.mem_reach_one_iff, found]
    simp
  · rw [Collection.visitedIds]
    constructor
    · intro same v near
      obtain ⟨⟨u, n⟩, here, rfl⟩ := List.mem_map.mp ((same v).mpr near)
      exact b.reach_found fixed here
    · intro all v
      have itself : first = key := by
        rw [all key (.inl rfl)] at found
        exact (Option.some.inj found).symm
      subst itself
      rw [b.mem_reach_one_iff]
      constructor
      · intro given
        rcases given with rfl | ⟨target, used, reached⟩
        · exact .inl rfl
        · rw [all target (.inr used)] at reached
          exact .inr (Option.some.inj reached ▸ used)
      · intro given
        rcases given with rfl | used
        · exact .inl rfl
        · exact .inr ⟨v, used, all v (.inr used)⟩

/-- Two spellings of one path, of which the second is noted as the meaning of a name. -/
def spelledTwice : List Contract := [
  { entryId := "src\\a.tsx", source := .null },
  { entryId := "src/a.tsx", source := .null },
  { entryId := "lib/b.tsx", composition := { components := ["a"] }, source := .null }]

theorem neighbours_visited_iff_of_spelled_twice :
    (∀ c ∈ spelledTwice, c.entryId ≠ "") ∧
      ∃ m, (build "" (.constant (.str "s") (.str "g")) false spelledTwice).outcome = .ok m ∧
        ∃ r, m.resolver = .ok r ∧ ∀ key ∈ m.components.keys,
          ∀ (nodes : Nat) (room : 1 ≤ nodes), m.components.size ≤ nodes →
            ∃ c, (m.collect key (.counts 1 nodes room)).outcome = .ok c ∧ c.truncated = false ∧
              (∀ v, v ∈ c.visitedIds ↔ ∃ first, r.lookup key = some first ∧
                (v = first ∨ ∃ target, m.UsedBy first target ∧ r.lookup target = some v)) ∧
              ((∀ v, v ∈ c.visitedIds ↔ v = key ∨ m.UsedBy key v) ↔
                ∀ v, v = key ∨ m.UsedBy key v → r.lookup v = some v) := by
  have named : ∀ c ∈ spelledTwice, c.entryId ≠ "" := by decide
  obtain ⟨m, built⟩ : ∃ m,
      (build "" (.constant (.str "s") (.str "g")) false spelledTwice).outcome = .ok m := ⟨_, rfl⟩
  exact ⟨named, m, built, neighbours_visited_iff built named⟩

/-- The walk from the third component visits the first one, and it is the second that notes it. -/
theorem walk_leaves_graph :
    (∀ c ∈ spelledTwice, c.entryId ≠ "") ∧
      ∃ m c, (build "" (.constant (.str "s") (.str "g")) false spelledTwice).outcome = .ok m ∧
        "lib/b.tsx" ∈ m.components.keys ∧ m.components.size ≤ 3 ∧
        (m.collect "lib/b.tsx" (.counts 1 3 (by decide))).outcome = .ok c ∧
        m.UsedBy "lib/b.tsx" "src/a.tsx" ∧ "src/a.tsx" ∉ c.visitedIds ∧
        ¬∀ v, v ∈ c.visitedIds ↔ v = "lib/b.tsx" ∨ m.UsedBy "lib/b.tsx" v := by
  refine ⟨by decide, _, _, rfl, by decide +kernel, by decide +kernel, rfl,
    ⟨_, rfl, by decide +kernel⟩, by decide +kernel, ?_⟩
  intro same
  have visited := (same "src/a.tsx").mpr (.inr ⟨_, rfl, by decide +kernel⟩)
  exact absurd visited (by decide +kernel)

end ContractGraph.Manifest
