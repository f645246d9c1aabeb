import ContractGraph.Proofs.Collection.Order
import ContractGraph.Proofs.Manifest.Reordered

/-!
# Walks that agree

A walk looks ids up and asks what the names of a component mean where it stands. Where two manifests
give the same answers, all walks go the same way, within any limits. Manifests of the same contracts
in two orders do when no reference is ambiguous.
-/

namespace ContractGraph

set_option autoImplicit false

namespace Collection

/-- Whatever a walk asks has the same answer in both scopes. -/
structure Scope.Agree (s s' : Scope) : Prop where
  room : s.room = s'.room
  lookup : ∀ id, s.resolver.lookup id = s'.resolver.lookup id
  dependencies : ∀ key, s.dependenciesOf key = s'.dependenciesOf key
  meaning : ∀ key, ∀ name ∈ s.dependenciesOf key,
    s.resolver.findValue name key = s'.resolver.findValue name key

namespace Scope.Agree

variable {s s' : Scope}

theorem follow (a : s.Agree s') (key : String) (state : Walk × List String) :
    (s.dependenciesOf key).foldlM (followDependency s.resolver key) state =
      (s'.dependenciesOf key).foldlM (followDependency s'.resolver key) state := by
  rw [← a.dependencies]
  apply fold_congr
  intro name listed state
  rw [followDependency, followDependency, a.meaning key name listed]

theorem walk_level (a : s.Agree s') (level : Nat) (last : Bool) (queue : List String) (w : Walk)
    (next : List String) :
    walkLevel s level last queue w next = walkLevel s' level last queue w next := by
  induction queue generalizing w next with
  | nil => rfl
  | cons id rest ih =>
    rw [walkLevel, walkLevel]
    simp only [a.lookup, a.room, a.follow, ih]

theorem walk_levels (a : s.Agree s') (reached : Bool) (below level : Nat) (queue : List String)
    (w : Walk) :
    walkLevels s reached below level queue w = walkLevels s' reached below level queue w := by
  induction below generalizing level queue w with
  | zero =>
    rw [walkLevels, walkLevels, a.walk_level]
  | succ below ih =>
    rw [walkLevels, walkLevels, a.walk_level]
    simp only [ih]

end Scope.Agree

end Collection

namespace Manifest

variable {contracts others : List Contract} {m m' : Manifest}

namespace Reordered

theorem agree (o : Reordered contracts others m m') (clear : m.Clear) (room : Nat) :
    (m.scope room).Agree (m'.scope room) := by
  have dependencies : ∀ key, (m.scope room).dependenciesOf key =
      (m'.scope room).dependenciesOf key := by
    intro key
    exact congrArg (·.getD []) (o.dependencies key)
  refine ⟨rfl, Resolver.lookup_reordered o.keys o.apart, dependencies, ?_⟩
  intro key value listed
  rw [o.first.dependencies_of, List.mem_map] at listed
  obtain ⟨name, own, rfl⟩ := listed
  obtain ⟨c, here, listed⟩ := mem_names_iff.mp own
  exact congrArg Except.ok (o.find_own clear here listed)

theorem size_eq (o : Reordered contracts others m m') :
    m.components.size = m'.components.size := by
  have length := o.keys.length_eq
  rw [Table.keys, Table.keys, List.length_map, List.length_map] at length
  exact length

theorem walk_eq (o : Reordered contracts others m m') (clear : m.Clear) (entryId : String)
    (limits : Limits) : Collection.walk m entryId limits = Collection.walk m' entryId limits := by
  rw [Collection.walk, Collection.walk, o.first.resolver_eq, o.second.resolver_eq, o.size_eq]
  exact (o.agree clear _).walk_levels _ _ _ _ _

theorem collect_eq (o : Reordered contracts others m m') (clear : m.Clear) (entryId : String)
    (limits : Limits) : m.collect entryId limits = m'.collect entryId limits := by
  rw [collect, collect, o.walk_eq clear]

end Reordered

end Manifest

end ContractGraph
