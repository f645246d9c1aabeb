import ContractGraph.Proofs.Collection.Order
import ContractGraph.Proofs.Manifest.Mirror

/-!
# Levels are distances

Where no two entry ids have one normal form, a collection gives each key its distance from the
start, and one that is not truncated holds all keys within the depth.
-/

namespace ContractGraph

set_option autoImplicit false

open ContractGraph.Graph (IsDistance)

/-- Two contracts whose entry ids have one normal form have the same entry id. -/
def EntryIdsApart (contracts : List Contract) : Prop :=
  ∀ c ∈ contracts, ∀ d ∈ contracts,
    EntryId.normalize c.entryId = EntryId.normalize d.entryId → c.entryId = d.entryId

instance (contracts : List Contract) : Decidable (EntryIdsApart contracts) :=
  inferInstanceAs (Decidable (∀ c ∈ contracts, ∀ d ∈ contracts,
    EntryId.normalize c.entryId = EntryId.normalize d.entryId → c.entryId = d.entryId))

namespace Manifest

variable {contracts : List Contract} {m : Manifest}

theorem Built.lookup_key (b : Built contracts m) (named : ∀ c ∈ contracts, c.entryId ≠ "")
    (apart : EntryIdsApart contracts) {key : String} (member : key ∈ m.components.keys) :
    (Resolver.ofKeys m.components.keys).lookup key = some key := by
  refine Resolver.lookup_key_of_apart ?_ (b.keys_named named key member) member
  intro first listed second other same
  obtain ⟨c, here, rfl⟩ := b.key_of_contract listed
  obtain ⟨d, there, rfl⟩ := b.key_of_contract other
  exact apart c here d there same

theorem Built.edges_of_walk (b : Built contracts m) (named : ∀ c ∈ contracts, c.entryId ≠ "")
    (apart : EntryIdsApart contracts) (room : Nat) :
    (fun u v => v ∈ (m.scope room).successorsOf u) = m.UsedBy := by
  funext u v
  apply propext
  rw [b.mem_successors_iff]
  constructor
  · intro given
    rcases given with ⟨target, used, found⟩
    have member := key_of_used used
    rw [b.lookup_key named apart member] at found
    exact Option.some.inj found ▸ used
  · intro used
    exact ⟨v, used, b.lookup_key named apart (key_of_used used)⟩

theorem Built.mem_reach_iff (b : Built contracts m) (named : ∀ c ∈ contracts, c.entryId ≠ "")
    (apart : EntryIdsApart contracts) {depth n : Nat} {start v : String} :
    (v, n) ∈ m.reach depth start ↔ n ≤ depth ∧ IsDistance m.UsedBy start v n := by
  rw [reach, Graph.mem_spread_start_iff, b.edges_of_walk named apart]

/-- A collection gives every visited key its distance from the start, in ascending order and within
the depth. It is full when it is truncated, and otherwise it visits everything within the depth. -/
theorem levels_are_distances {now : String} {hasher : Hasher} {withIndex : Bool}
    (built : (build now hasher withIndex contracts).outcome = .ok m)
    (named : ∀ c ∈ contracts, c.entryId ≠ "") (apart : EntryIdsApart contracts) :
    ∃ r, m.resolver = .ok r ∧ ∀ entryId start, r.lookup entryId = some start →
      ∀ (depth nodes : Nat) (room : 1 ≤ nodes),
        ∃ c, (m.collect entryId (.counts depth nodes room)).outcome = .ok c ∧
          (∀ v ∈ c.visited, IsDistance m.UsedBy start v.1 v.2 ∧ v.2 ≤ depth) ∧
          c.visited.Pairwise (fun v w => v.2 ≤ w.2) ∧ c.visitedIds.Nodup ∧
          (c.truncated = true → c.visited.length = nodes) ∧
          (c.truncated = false →
            ∀ v, v ∈ c.visitedIds ↔ ∃ n ≤ depth, IsDistance m.UsedBy start v n) := by
  have b := build_built built
  refine ⟨_, b.resolver_eq, ?_⟩
  intro entryId start found depth nodes room
  have order := b.collect_order named found depth nodes room
  have ascending : (m.reach depth start).Pairwise fun v w => v.2 ≤ w.2 :=
    Graph.spread_levels_ascend _ depth 0 [] [start]
  have distinct : ((m.reach depth start).map (·.1)).Nodup :=
    (Graph.spread_distinct _ depth 0 [] [start]).1
  have first : ((m.reach depth start).take nodes).Sublist (m.reach depth start) :=
    List.take_sublist nodes (m.reach depth start)
  refine ⟨_, order, ?_, ascending.sublist first, distinct.sublist (first.map _), ?_, ?_⟩
  · intro v member
    have ⟨within, distance⟩ := (b.mem_reach_iff named apart).mp (first.subset member)
    exact ⟨distance, within⟩
  · intro cut
    have longer : nodes < (m.reach depth start).length := of_decide_eq_true cut
    exact List.length_take_of_le (Nat.le_of_lt longer)
  · intro uncut v
    have fits : (m.reach depth start).length ≤ nodes := by
      have short : ¬nodes < (m.reach depth start).length := of_decide_eq_false uncut
      omega
    rw [Collection.visitedIds, List.take_of_length_le fits, List.mem_map]
    constructor
    · intro given
      rcases given with ⟨⟨u, n⟩, member, rfl⟩
      exact ⟨n, (b.mem_reach_iff named apart).mp member⟩
    · intro given
      rcases given with ⟨n, within, distance⟩
      exact ⟨(v, n), (b.mem_reach_iff named apart).mpr ⟨within, distance⟩, rfl⟩

theorem levels_are_distances_of_project :
    (∀ c ∈ project, c.entryId ≠ "") ∧ EntryIdsApart project ∧
      ∃ m, (build "" (.constant (.str "s") (.str "g")) false project).outcome = .ok m ∧
        ∃ r, m.resolver = .ok r ∧ ∀ entryId start, r.lookup entryId = some start →
          ∀ (depth nodes : Nat) (room : 1 ≤ nodes),
            ∃ c, (m.collect entryId (.counts depth nodes room)).outcome = .ok c ∧
              (∀ v ∈ c.visited, IsDistance m.UsedBy start v.1 v.2 ∧ v.2 ≤ depth) ∧
              c.visited.Pairwise (fun v w => v.2 ≤ w.2) ∧ c.visitedIds.Nodup ∧
              (c.truncated = true → c.visited.length = nodes) ∧
              (c.truncated = false →
                ∀ v, v ∈ c.visitedIds ↔ ∃ n ≤ depth, IsDistance m.UsedBy start v n) := by
  have named : ∀ c ∈ project, c.entryId ≠ "" := by decide
  have apart : EntryIdsApart project := by decide +kernel
  obtain ⟨m, built⟩ : ∃ m,
      (build "" (.constant (.str "s") (.str "g")) false project).outcome = .ok m := ⟨_, rfl⟩
  exact ⟨named, apart, m, built, levels_are_distances built named apart⟩

end Manifest

end ContractGraph
