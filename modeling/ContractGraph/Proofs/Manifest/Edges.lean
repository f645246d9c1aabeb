import ContractGraph.Manifest.Build

/-!
# Incoming edges

Linking goes through the references component by component and notes the referrer at the target,
which may be the component itself. The outcome is said at once for all components: each has got the
referrers that have a name for it, in the order of the components and each once.
-/

namespace ContractGraph

set_option autoImplicit false

namespace Component

theorem add_user_twice (c : Component) (key : String) :
    (c.addUser key).addUser key = c.addUser key := by
  by_cases known : Json.str key ∈ c.usedBy
  · simp only [addUser, if_pos known]
  · simp only [addUser, if_neg known]
    exact if_pos (by simp)

theorem fold_add_user {users : List String} {c : Component} (distinct : users.Nodup)
    (fresh : ∀ user ∈ users, Json.str user ∉ c.usedBy) :
    users.foldl (fun c user => c.addUser user) c =
      { c with usedBy := c.usedBy ++ users.map .str } := by
  induction users generalizing c with
  | nil => simp
  | cons user rest ih =>
    obtain ⟨absent, distinct⟩ := List.nodup_cons.mp distinct
    have added : c.addUser user = { c with usedBy := c.usedBy ++ [.str user] } :=
      if_neg (fresh user List.mem_cons_self)
    have later : ∀ other ∈ rest, Json.str other ∉ (c.addUser user).usedBy := by
      intro other member noted
      rw [added] at noted
      rcases List.mem_append.mp noted with before | here
      · exact fresh other (List.mem_cons_of_mem user member) before
      · have same : other = user := by simpa using here
        exact absent (same ▸ member)
    rw [List.foldl_cons, ih distinct later, added]
    simp

end Component

namespace Manifest

/-- Whether one of the names means the target where the referrer uses it. -/
def refersTo (r : Resolver) (referrer : String) (names : List String) (target : String) : Bool :=
  names.any fun name => r.resolve name (some referrer) == some target

/-- The keys of the components that have a name for the target, in the order of the components. -/
def usersOf (r : Resolver) (entries : List (String × Component)) (target : String) :
    List String :=
  (entries.filter fun e => refersTo r e.1 e.2.dependencyNames target).map (·.1)

theorem refers_to_iff {r : Resolver} {referrer target : String} {names : List String} :
    refersTo r referrer names target = true ↔
      ∃ name ∈ names, r.resolve name (some referrer) = some target := by
  simp [refersTo]

theorem mem_users_iff {r : Resolver} {entries : List (String × Component)}
    {referrer target : String} :
    referrer ∈ usersOf r entries target ↔
      ∃ c, (referrer, c) ∈ entries ∧
        ∃ name ∈ c.dependencyNames, r.resolve name (some referrer) = some target := by
  simp only [usersOf, List.mem_map, List.mem_filter, refers_to_iff]
  constructor
  · intro given
    rcases given with ⟨⟨key, c⟩, ⟨member, reference⟩, rfl⟩
    exact ⟨c, member, reference⟩
  · intro given
    rcases given with ⟨c, member, reference⟩
    exact ⟨(referrer, c), ⟨member, reference⟩, rfl⟩

/-- The references of one component note it at all their targets, however often they mean the same
one. -/
theorem link_references_of (r : Resolver) (referrer : String) (names : List String)
    (t : Table String Component) :
    (referencesOf r referrer names).foldl linkReference t =
      t.map fun target c => if refersTo r referrer names target then c.addUser referrer else c := by
  induction names generalizing t with
  | nil =>
    apply Table.eq_of_entries
    simp [referencesOf, Table.map, refersTo]
  | cons name rest ih =>
    rcases means : r.find? name (some referrer) with _ | found
    · have skipped : referencesOf r referrer (name :: rest) = referencesOf r referrer rest := by
        simp [referencesOf, means]
      have unresolved : r.resolve name (some referrer) = none := by simp [Resolver.resolve, means]
      rw [skipped, ih]
      simp [refersTo, unresolved]
    · have taken : referencesOf r referrer (name :: rest) =
          ⟨referrer, name, found⟩ :: referencesOf r referrer rest := by
        simp [referencesOf, means]
      have resolved : r.resolve name (some referrer) = some found.key := by
        simp [Resolver.resolve, means]
      rw [taken, List.foldl_cons, ih, linkReference, Table.modify, Table.map_map]
      congr 1
      funext target c
      by_cases here : found.key = target
      · subst here
        by_cases again : refersTo r referrer rest found.key = true
        · simp [refersTo, resolved, Component.add_user_twice]
        · have only : refersTo r referrer (name :: rest) found.key = true := by
            simp [refersTo, resolved]
          simp [again, only]
      · have same : refersTo r referrer (name :: rest) target =
            refersTo r referrer rest target := by
          simp [refersTo, resolved, here]
        simp [same, Ne.symm here]

theorem link_references (r : Resolver) (entries : List (String × Component))
    (t : Table String Component) :
    (entries.flatMap fun e => referencesOf r e.1 e.2.dependencyNames).foldl linkReference t =
      t.map fun target c => (usersOf r entries target).foldl (fun c user => c.addUser user) c := by
  induction entries generalizing t with
  | nil =>
    apply Table.eq_of_entries
    simp [Table.map, usersOf]
  | cons e rest ih =>
    rw [List.flatMap_cons, List.foldl_append, link_references_of, ih, Table.map_map]
    congr 1
    funext target c
    by_cases here : refersTo r e.1 e.2.dependencyNames target = true
    · simp [usersOf, here]
    · simp [usersOf, here]

/-- Components without incoming edges have all their users and nothing else when linked. -/
theorem linked_components {r : Resolver} {components : Table String Component}
    (unused : ∀ e ∈ components.entries, e.2.usedBy = []) :
    ((references r components).foldl linkReference components).entries =
      components.entries.map fun e =>
        (e.1, { e.2 with usedBy := (usersOf r components.entries e.1).map .str }) := by
  have distinct : ∀ target, (usersOf r components.entries target).Nodup := by
    intro target
    exact components.keys_nodup.sublist (List.Sublist.map _ List.filter_sublist)
  rw [references, link_references, Table.map]
  apply List.map_congr_left
  intro e member
  have none : e.2.usedBy = [] := unused e member
  rw [Component.fold_add_user (distinct e.1) (by simp [none]), none]
  rfl

end Manifest

end ContractGraph
