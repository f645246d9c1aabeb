import ContractGraph.Proofs.Manifest.Built

/-!
# The graph of a built manifest

Incoming edges mirror the resolved names, each once and in the order of the components, and the
roots, the leaves and the isolated components are read off the edges.
-/

namespace ContractGraph

set_option autoImplicit false

namespace Manifest

/-- The values are exactly the keys with a property, in ascending order. -/
def ListsKeys (values : List Json) (p : String → Prop) : Prop :=
  ∃ keys : List String, values = keys.map .str ∧ keys.Pairwise (· < ·) ∧ ∀ key, key ∈ keys ↔ p key

theorem ListsKeys.unique {values others : List Json} {p : String → Prop}
    (first : ListsKeys values p) (second : ListsKeys others p) : values = others := by
  rcases first with ⟨keys, rfl, ascending, listed⟩
  rcases second with ⟨more, rfl, climbing, given⟩
  have same : ∀ key, key ∈ keys ↔ key ∈ more := fun key => (listed key).trans (given key).symm
  rw [Text.eq_of_ascending_on ascending climbing same]

theorem ListsKeys.mem_iff {values : List Json} {p : String → Prop} (lists : ListsKeys values p)
    (key : String) : .str key ∈ values ↔ p key := by
  obtain ⟨keys, rfl, -, listed⟩ := lists
  rw [← listed]
  simp

theorem keys_where_lists (p : Component → Bool) (t : Table String Component) :
    ListsKeys (keysWhere p t) fun key => ∃ c, t.get? key = some c ∧ p c = true := by
  refine ⟨Text.sorted (t.filter fun _ c => p c).keys, rfl, ?_, ?_⟩
  · exact Text.sorted_ascending (t.filter fun _ c => p c).keys_nodup
  · intro key
    rw [Text.mem_sorted, t.mem_keys_filter_iff]

theorem keys_where_congr {p : Component → Bool} {t u : Table String Component}
    (same : ∀ key, (∃ c, t.get? key = some c ∧ p c = true) ↔
      ∃ c, u.get? key = some c ∧ p c = true) : keysWhere p t = keysWhere p u := by
  have first := keys_where_lists p t
  rw [show (fun key => ∃ c, t.get? key = some c ∧ p c = true) =
    fun key => ∃ c, u.get? key = some c ∧ p c = true from funext fun key => propext (same key)]
    at first
  exact first.unique (keys_where_lists p u)

theorem isolated_lists {m : Manifest} {p q : String → Prop} (roots : ListsKeys m.roots p)
    (leaves : ListsKeys m.leaves q) :
    ∃ both, m.isolated = .ok both ∧ ListsKeys both fun key => p key ∧ q key := by
  rcases roots with ⟨rootKeys, rootTexts, ascending, rootIff⟩
  rcases leaves with ⟨leafKeys, leafTexts, -, leafIff⟩
  have hashable : ∀ v ∈ leafKeys.map Json.str, v.asKey = .ok (.str v.text) := by
    intro v member
    obtain ⟨key, -, rfl⟩ := List.mem_map.mp member
    rfl
  have among : ∀ v ∈ rootKeys.map Json.str,
      v.amongKeys (leafKeys.map .str) = .ok (decide (v.text ∈ leafKeys)) := by
    intro v member
    obtain ⟨key, -, rfl⟩ := List.mem_map.mp member
    have same : (leafKeys.map Json.str).any (fun w => w.same (.str key)) =
        decide (key ∈ leafKeys) := by
      apply Bool.eq_iff_iff.mpr
      simp
    exact congrArg Except.ok same
  have kept : (rootKeys.map Json.str).filter (fun v => decide (v.text ∈ leafKeys)) =
      (rootKeys.filter fun key => key ∈ leafKeys).map .str := by
    rw [List.filter_map]
    rfl
  refine ⟨(rootKeys.filter fun key => key ∈ leafKeys).map .str, ?_, _, rfl, ?_, ?_⟩
  · rw [isolated, rootTexts, leafTexts, map_each_ok hashable, filter_each_ok among, kept]
    rfl
  · exact ascending.filter _
  · intro key
    simp [rootIff, leafIff]

/-- One component is a user of another exactly when one of its names means the other where it
stands. Users stand in the order of the components and none twice, and roots, leaves and isolated
components are the sorted keys without users, without dependencies and without either. -/
theorem build_mirrors_names {contracts : List Contract} {m : Manifest} {now : String}
    {hasher : Hasher} {withIndex : Bool}
    (built : (build now hasher withIndex contracts).outcome = .ok m) :
    ∃ r, m.resolver = .ok r ∧
      (∀ a b c, m.components.get? a = some c → b ∈ m.components.keys →
        (m.UsedBy a b ↔
          ∃ name, .str name ∈ c.dependencies ∧ r.resolve name (some a) = some b)) ∧
      (∀ b c, m.components.get? b = some c → ∃ users : List String,
        c.usedBy = users.map .str ∧ users.Nodup ∧ users.Sublist m.components.keys) ∧
      ListsKeys m.roots (fun key => ∃ c, m.components.get? key = some c ∧ c.usedBy = []) ∧
      ListsKeys m.leaves (fun key => ∃ c, m.components.get? key = some c ∧ c.dependencies = []) ∧
      ∃ both, m.isolated = .ok both ∧
        ListsKeys both fun key => .str key ∈ m.roots ∧ .str key ∈ m.leaves := by
  have b := build_built built
  have roots : ListsKeys m.roots
      fun key => ∃ c, m.components.get? key = some c ∧ c.usedBy = [] := by
    rw [b.roots]
    simpa using keys_where_lists (·.usedBy.isEmpty) m.components
  have leaves : ListsKeys m.leaves
      fun key => ∃ c, m.components.get? key = some c ∧ c.dependencies = [] := by
    rw [b.leaves]
    simpa using keys_where_lists (·.dependencies.isEmpty) m.components
  refine ⟨_, b.resolver_eq, ?_, ?_, roots, leaves, ?_⟩
  · intro user target c found _
    rw [b.used_by_iff]
    constructor
    · intro given
      rcases given with ⟨d, here, reference⟩
      rw [found] at here
      cases here
      exact reference
    · intro reference
      exact ⟨c, found, reference⟩
  · intro target c found
    have ordered : (usersOf (.ofKeys m.components.keys) m.components.entries target).Sublist
        m.components.keys := List.Sublist.map _ List.filter_sublist
    exact ⟨_, b.used_by_of_get found, m.components.keys_nodup.sublist ordered, ordered⟩
  · have members : ∀ {values : List Json} {p : String → Prop}, ListsKeys values p →
        ListsKeys values fun key => .str key ∈ values := by
      intro values p listed
      rcases listed with ⟨keys, rfl, ascending, -⟩
      exact ⟨keys, rfl, ascending, fun key => by simp⟩
    exact isolated_lists (members roots) (members leaves)

/-- A cycle, a component that uses itself, a name that is given twice, two names with one meaning,
and a name with two. -/
def project : List Contract :=
  let contract (id : String) (names : List String) : Contract :=
    { entryId := id, composition := { components := names }, source := .null }
  [contract "src/App.tsx" ["Card", "Card", "src/Card.tsx"],
   contract "src/Card.tsx" ["App", "Card"],
   contract "lib/Card.tsx" ["Row"],
   contract "a/Row.tsx" [],
   contract "b/Row.tsx" []]

theorem build_mirrors_names_of_project :
    ∃ m, (build "" (.constant (.str "s") (.str "g")) false project).outcome = .ok m ∧
      ∃ r, m.resolver = .ok r ∧
        (∀ a b c, m.components.get? a = some c → b ∈ m.components.keys →
          (m.UsedBy a b ↔
            ∃ name, .str name ∈ c.dependencies ∧ r.resolve name (some a) = some b)) ∧
        (∀ b c, m.components.get? b = some c → ∃ users : List String,
          c.usedBy = users.map .str ∧ users.Nodup ∧ users.Sublist m.components.keys) ∧
        ListsKeys m.roots (fun key => ∃ c, m.components.get? key = some c ∧ c.usedBy = []) ∧
        ListsKeys m.leaves
          (fun key => ∃ c, m.components.get? key = some c ∧ c.dependencies = []) ∧
        ∃ both, m.isolated = .ok both ∧
          ListsKeys both fun key => .str key ∈ m.roots ∧ .str key ∈ m.leaves := by
  obtain ⟨m, built⟩ : ∃ m,
      (build "" (.constant (.str "s") (.str "g")) false project).outcome = .ok m := ⟨_, rfl⟩
  exact ⟨m, built, build_mirrors_names built⟩

example : (build "" (.constant (.str "s") (.str "g")) false project).outcome.map
    (fun m => m.components.values.map (·.usedBy)) =
    .ok [[.str "src/Card.tsx"], [.str "src/App.tsx", .str "src/Card.tsx"], [],
      [.str "lib/Card.tsx"], []] := by decide +kernel

end Manifest

end ContractGraph
