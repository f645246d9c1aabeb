import ContractGraph.Manifest.Stats
import ContractGraph.Proofs.Bundle.Edges
import ContractGraph.Proofs.Manifest.Mirror
import Mathlib.Algebra.GroupWithZero.Nat
import Mathlib.Data.List.Nodup
import Mathlib.Data.List.Pairwise

/-!
# The first components by a count

A ranking puts the greater count first and, of equal counts, the component that comes first in the
manifest; what is listed is the front of it, so nothing that is left out stands before what is
listed. Two of the figures are known from elsewhere too. The isolated components are those that are
roots and leaves, and the incoming edges that are counted are the edges found by packing everything.
-/

namespace ContractGraph

set_option autoImplicit false

section Stable

variable {α : Type} {items : List α} {a b : α}

/-- Of two items of a list that repeats none, only one comes first. -/
theorem one_comes_first (distinct : items.Nodup) (forth : [a, b].Sublist items) :
    ¬ [b, a].Sublist items := by
  induction items with
  | nil => cases forth
  | cons c rest ih =>
    obtain ⟨fresh, distinct⟩ := List.nodup_cons.mp distinct
    intro back
    cases forth with
    | cons _ forth =>
      cases back with
      | cons _ back => exact ih distinct forth back
      | cons_cons _ _ => exact fresh (forth.mem (List.mem_cons_of_mem a List.mem_cons_self))
    | cons_cons _ only =>
      cases back with
      | cons _ back => exact fresh (back.mem (List.mem_cons_of_mem b List.mem_cons_self))
      | cons_cons _ _ => exact fresh (only.mem List.mem_cons_self)

theorem either_comes_first (first : a ∈ items) (second : b ∈ items) (apart : a ≠ b) :
    [a, b].Sublist items ∨ [b, a].Sublist items := by
  have symmetric : Std.Symm fun a b => [a, b].Sublist items ∨ [b, a].Sublist items :=
    ⟨fun _ _ => Or.symm⟩
  have ordered : items.Pairwise fun a b => [a, b].Sublist items ∨ [b, a].Sublist items :=
    List.pairwise_iff_forall_sublist.mpr Or.inl
  exact ordered.forall first second apart

/-- Items that are sorted stand in their order, and those that are equal in it as they stood. -/
theorem merge_sort_stable (atMost : α → α → Bool)
    (trans : ∀ a b c, atMost a b = true → atMost b c = true → atMost a c = true)
    (total : ∀ a b, (atMost a b || atMost b a) = true) (distinct : items.Nodup) :
    (items.mergeSort atMost).Pairwise fun a b =>
      atMost a b = true ∧ (atMost b a = true → [a, b].Sublist items) := by
  have perm := List.mergeSort_perm items atMost
  have once : (items.mergeSort atMost).Nodup := perm.nodup_iff.mpr distinct
  have ascends := List.pairwise_mergeSort trans total items
  apply List.pairwise_iff_forall_sublist.mpr
  intro a b before
  refine ⟨List.pairwise_iff_forall_sublist.mp ascends before, ?_⟩
  intro equal
  have first : a ∈ items := perm.mem_iff.mp (before.mem List.mem_cons_self)
  have second : b ∈ items :=
    perm.mem_iff.mp (before.mem (List.mem_cons_of_mem a List.mem_cons_self))
  have apart : a ≠ b := List.pairwise_iff_forall_sublist.mp once before
  rcases either_comes_first first second apart with kept | swapped
  · exact kept
  · exact absurd (List.pair_sublist_mergeSort trans total equal swapped)
      (one_comes_first once before)

end Stable

theorem take_up_to_natural {α : Type} (k : Nat) (items : List α) :
    takeUpTo (k : Int) items = items.take k := by
  rw [takeUpTo, if_neg (Int.not_lt.mpr (Int.natCast_nonneg k)), Int.toNat_natCast]

namespace Manifest

/-- One key with its count stands before another: its count is greater, or it is the same and the
key comes first. -/
def Outranks (keys : List String) (a b : String × Nat) : Prop :=
  b.2 < a.2 ∨ a.2 = b.2 ∧ [a.1, b.1].Sublist keys

/-- The entries are the components that stand before all others by a count, as many as the limit
lets in, in that order. -/
structure ListsTop (m : Manifest) (count : Component → Nat) (limit : Nat)
    (top : List (String × Nat)) : Prop where
  length : top.length = min limit m.components.size
  distinct : (top.map (·.1)).Nodup
  counted : ∀ e ∈ top, ∃ c, m.components.get? e.1 = some c ∧ count c = e.2
  ordered : top.Pairwise (Outranks m.components.keys)
  omitted : ∀ key c, m.components.get? key = some c → key ∉ top.map (·.1) →
    ∀ e ∈ top, Outranks m.components.keys e (key, count c)

section Ranking

variable (m : Manifest) (count : Component → Nat)

/-- The keys with their counts, in the order of the components. -/
def counts : List (String × Nat) := m.components.entries.map fun e => (e.1, count e.2)

theorem keys_of_counts : (m.counts count).map (·.1) = m.components.keys := by
  rw [counts, List.map_map]
  rfl

theorem counts_nodup : (m.counts count).Nodup := by
  apply List.Nodup.of_map (·.1)
  rw [keys_of_counts]
  exact m.components.keys_nodup

theorem mem_counts_iff {e : String × Nat} :
    e ∈ m.counts count ↔ ∃ c, m.components.get? e.1 = some c ∧ count c = e.2 := by
  rcases e with ⟨key, n⟩
  simp [counts, Table.get_eq_some_iff]

theorem ranked_perm : (m.ranked count).Perm (m.counts count) := List.mergeSort_perm _ _

theorem ranked_ordered : (m.ranked count).Pairwise (Outranks m.components.keys) := by
  have stable : (m.ranked count).Pairwise fun a b =>
      decide (b.2 ≤ a.2) = true ∧
        (decide (a.2 ≤ b.2) = true → [a, b].Sublist (m.counts count)) := by
    apply merge_sort_stable fun a b : String × Nat => decide (b.2 ≤ a.2)
    · intro a b c first second
      exact decide_eq_true (Nat.le_trans (of_decide_eq_true second) (of_decide_eq_true first))
    · intro a b
      simpa using Nat.le_total b.2 a.2
    · exact m.counts_nodup count
  refine stable.imp ?_
  intro a b given
  rcases Nat.lt_or_eq_of_le (of_decide_eq_true given.1) with less | same
  · exact .inl less
  · have before := (given.2 (decide_eq_true (Nat.le_of_eq same.symm))).map Prod.fst
    rw [keys_of_counts] at before
    exact .inr ⟨same.symm, before⟩

theorem ranked_lists_top (limit : Nat) :
    m.ListsTop count limit ((m.ranked count).take limit) := by
  have perm := m.ranked_perm count
  have whole : ((m.ranked count).map (·.1)).Perm m.components.keys := by
    rw [← m.keys_of_counts count]
    exact perm.map _
  constructor
  case length =>
    rw [List.length_take, perm.length_eq, counts, List.length_map]
    rfl
  case distinct =>
    have once := whole.nodup_iff.mpr m.components.keys_nodup
    exact once.sublist ((List.take_sublist limit _).map _)
  case counted =>
    intro e member
    exact (m.mem_counts_iff count).mp (perm.mem_iff.mp (List.mem_of_mem_take member))
  case ordered => exact (m.ranked_ordered count).sublist (List.take_sublist limit _)
  case omitted =>
    intro key c found absent e listed
    have ranked : (key, count c) ∈ m.ranked count :=
      perm.mem_iff.mpr ((m.mem_counts_iff count).mpr ⟨c, found, rfl⟩)
    rw [← List.take_append_drop limit (m.ranked count)] at ranked
    have behind : (key, count c) ∈ (m.ranked count).drop limit := by
      rcases List.mem_append.mp ranked with front | back
      · exact absurd (List.mem_map_of_mem front) absent
      · exact back
    have ordered := m.ranked_ordered count
    rw [← List.take_append_drop limit (m.ranked count)] at ordered
    exact (List.pairwise_append.mp ordered).2.2 e listed _ behind

end Ranking

/-- The incoming edges, component by component: each user with the component that notes it. -/
def incoming (m : Manifest) : List (String × String) :=
  m.components.entries.flatMap fun e => e.2.usedBy.map fun user => (user.text, e.1)

namespace Built

variable {contracts : List Contract} {m : Manifest}

theorem mem_incoming_iff (b : Built contracts m) {user target : String} :
    (user, target) ∈ m.incoming ↔ m.UsedBy user target := by
  rw [incoming, List.mem_flatMap]
  constructor
  · intro given
    rcases given with ⟨e, member, noted⟩
    have found := (m.components.get_eq_some_iff e.1 e.2).mpr member
    obtain ⟨users, texts, -, each⟩ := b.users_listed found
    rw [texts, List.map_map] at noted
    obtain ⟨own, listed, same⟩ := List.mem_map.mp noted
    cases same
    exact (each own).mp listed
  · intro given
    obtain ⟨c, found, noted⟩ := given
    refine ⟨(target, c), (m.components.get_eq_some_iff target c).mp found, ?_⟩
    exact List.mem_map.mpr ⟨.str user, noted, rfl⟩

theorem incoming_nodup (b : Built contracts m) : m.incoming.Nodup := by
  apply List.nodup_flatMap.mpr
  constructor
  · intro e member
    have found := (m.components.get_eq_some_iff e.1 e.2).mpr member
    obtain ⟨users, texts, distinct, -⟩ := b.users_listed found
    rw [texts, List.map_map]
    refine distinct.map ?_
    intro user other same
    exact congrArg Prod.fst same
  · refine m.components.distinct.imp ?_
    intro d e apart pair first second
    obtain ⟨user, -, rfl⟩ := List.mem_map.mp first
    obtain ⟨other, -, same⟩ := List.mem_map.mp second
    have equal : e.1 = d.1 := congrArg Prod.snd same
    simp [equal] at apart

/-- Packing all components finds each incoming edge once. -/
theorem edges_of_all (b : Built contracts m) :
    ∃ edges, Bundle.edgesAmong m m.components.keys = .ok edges ∧ edges.Perm m.incoming := by
  refine ⟨_, b.edges_among m.components.keys, ?_⟩
  have among := b.edges_among m.components.keys
  have distinct := (List.mergeSort_perm ((m.components.keys.flatMap
    (m.edgesInside m.components.keys)).eraseDups) Bundle.edgeAtMost).nodup_iff.mpr
    (each_once _)
  apply (List.perm_ext_iff_of_nodup distinct b.incoming_nodup).mpr
  intro edge
  rcases edge with ⟨user, target⟩
  rw [b.mem_edges_iff among, b.mem_incoming_iff]
  constructor
  · intro given
    exact given.2.2
  · intro used
    obtain ⟨c, here, -⟩ := b.used_by_iff.mp used
    exact ⟨(m.components.mem_keys_iff user).mpr ⟨c, here⟩, key_of_used used, used⟩

/-- The keys without users and dependencies are the roots that are leaves. -/
theorem isolated_perm (b : Built contracts m) (limit : Int) :
    ∃ both, m.isolated = .ok both ∧ ((m.stats limit).isolated.map .str).Perm both := by
  have roots := keys_where_lists (·.usedBy.isEmpty) m.components
  have leaves := keys_where_lists (·.dependencies.isEmpty) m.components
  rw [← b.roots] at roots
  rw [← b.leaves] at leaves
  obtain ⟨both, isolated, keys, rfl, ascending, each⟩ := isolated_lists roots leaves
  refine ⟨_, isolated, List.Perm.map _ ?_⟩
  have distinct : (m.stats limit).isolated.Nodup := Table.keys_nodup _
  apply (List.perm_ext_iff_of_nodup distinct (Text.nodup_of_ascending ascending)).mpr
  intro key
  rw [each, stats, Table.mem_keys_filter_iff]
  constructor
  · intro given
    rcases given with ⟨c, found, alone⟩
    obtain ⟨unused, bare⟩ := Bool.and_eq_true_iff.mp alone
    exact ⟨⟨c, found, unused⟩, ⟨c, found, bare⟩⟩
  · intro given
    rcases given with ⟨⟨c, found, unused⟩, ⟨d, here, bare⟩⟩
    rw [found] at here
    cases here
    exact ⟨c, found, Bool.and_eq_true_iff.mpr ⟨unused, bare⟩⟩

end Built

theorem sum_of_counts (m : Manifest) :
    ((m.ranked (·.usedBy.length)).map (·.2)).sum = m.incoming.length := by
  have perm := (m.ranked_perm (·.usedBy.length)).map (·.2)
  rw [perm.sum_nat, counts, incoming, List.map_map, List.length_flatMap]
  simp [Function.comp_def]

/-- The statistics of a built manifest list the components that stand first by their users and by
their dependencies, and the isolated ones. All usage counts together are the number of edges that
packing all components finds. -/
theorem stats_of_built {contracts : List Contract} {m : Manifest} {now : String}
    {hasher : Hasher} {withIndex : Bool}
    (built : (build now hasher withIndex contracts).outcome = .ok m) (limit : Nat) :
    m.ListsTop (·.usedBy.length) limit (m.stats limit).mostUsed ∧
      m.ListsTop (·.dependencies.length) limit (m.stats limit).mostComplex ∧
      (∃ both, m.isolated = .ok both ∧ ((m.stats limit).isolated.map .str).Perm both) ∧
      ∃ edges, Bundle.edgesAmong m m.components.keys = .ok edges ∧
        (m.components.size ≤ limit →
          ((m.stats limit).mostUsed.map (·.2)).sum = edges.length) := by
  have b := build_built built
  have used : (m.stats limit).mostUsed = (m.ranked (·.usedBy.length)).take limit :=
    take_up_to_natural limit _
  have complex : (m.stats limit).mostComplex = (m.ranked (·.dependencies.length)).take limit :=
    take_up_to_natural limit _
  obtain ⟨edges, among, perm⟩ := b.edges_of_all
  refine ⟨?_, ?_, b.isolated_perm limit, edges, among, ?_⟩
  · rw [used]
    exact m.ranked_lists_top _ limit
  · rw [complex]
    exact m.ranked_lists_top _ limit
  · intro enough
    have whole : (m.ranked (·.usedBy.length)).length ≤ limit := by
      rw [(m.ranked_perm _).length_eq, counts, List.length_map]
      exact enough
    rw [used, List.take_of_length_le whole, m.sum_of_counts, perm.length_eq]

theorem stats_of_built_project :
    ∃ m, (build "" (.constant (.str "s") (.str "g")) false project).outcome = .ok m ∧
      m.ListsTop (·.usedBy.length) 5 (m.stats 5).mostUsed ∧
      m.ListsTop (·.dependencies.length) 5 (m.stats 5).mostComplex ∧
      (∃ both, m.isolated = .ok both ∧ ((m.stats 5).isolated.map .str).Perm both) ∧
      ∃ edges, Bundle.edgesAmong m m.components.keys = .ok edges ∧
        ((m.stats 5).mostUsed.map (·.2)).sum = edges.length := by
  obtain ⟨m, built, five⟩ : ∃ m,
      (build "" (.constant (.str "s") (.str "g")) false project).outcome = .ok m ∧
        m.components.size ≤ 5 := ⟨_, rfl, by decide +kernel⟩
  obtain ⟨used, complex, isolated, edges, among, total⟩ := stats_of_built built 5
  exact ⟨m, built, used, complex, isolated, edges, among, total five⟩

end Manifest

end ContractGraph
