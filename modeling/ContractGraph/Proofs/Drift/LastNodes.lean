import ContractGraph.Proofs.Drift.Differences
import ContractGraph.Proofs.Drift.Validated
import ContractGraph.Proofs.Table
import Mathlib.Data.List.ReduceOption

/-!
# Last nodes

A snapshot holds under every lower-case id the signature of the last named node that has the id, at
the place of the first one, and it notes a collision for every node that replaces another. Where no
node does, neither the order of the bundles nor the order of their nodes is seen in a comparison.
-/

namespace ContractGraph

set_option autoImplicit false

namespace Json

/-- Only an array has elements that are objects. -/
theorem items_of_elements {v : Json} {items : List Json} (listed : v.elementsOrNone = .ok items)
    (objects : ∀ item ∈ items, ∃ fields, item = .obj fields) : v.itemsOrNone = items := by
  rw [elementsOrNone] at listed
  split at listed
  · next there =>
    cases v with
    | arr items => exact Except.ok.inj listed
    | obj fields =>
      cases listed
      cases fields with
      | nil => cases there
      | cons f rest =>
        obtain ⟨fields, object⟩ := objects _ List.mem_cons_self
        rcases f with ⟨key, value⟩
        cases key <;> cases object
    | str s =>
      cases listed
      cases chars : s.toList with
      | nil => simp_all [truthy]
      | cons c rest =>
        rw [chars] at objects
        obtain ⟨fields, object⟩ := objects _ List.mem_cons_self
        cases object
    | _ => cases listed
  · next nothing =>
    cases listed
    cases v with
    | arr items =>
      cases items with
      | nil => rfl
      | cons v rest => exact absurd rfl nothing
    | _ => rfl

end Json

namespace Bundle

/-- The id under which a snapshot has a node. -/
def indexedId (node : Json) : String := Text.lower (entryName node).text

/-- The signature of the contract that a node embeds. -/
def signatureOf (node : Json) : Except ShapeFault DriftSignature :=
  DriftSignature.ofDocument (.obj (contractFields node))

/-- What the row of a node says about it. -/
structure Signed (node : Json) (row : Snapshot.Row) : Prop where
  id : row.1 = (entryName node).text
  signature : signatureOf node = .ok row.2

end Bundle

open ContractGraph.Bundle (indexedId signatureOf documentNodes isNamed nodesIn entryName
  contractFields Signed)

namespace Snapshot

theorem row_read {node : Json} {row : Option Row} (read : rowOf node = .ok row) :
    (∃ fields, node = .obj fields) ∧ row.isSome = isNamed node ∧ ∀ r ∈ row, Signed node r := by
  rw [rowOf] at read
  obtain ⟨contract, embedded, read⟩ := ok_of_bind read
  obtain ⟨ownId, own, read⟩ := ok_of_bind read
  obtain ⟨fields, rfl, rfl⟩ := Json.object_of_member embedded
  obtain ⟨part, rfl⟩ := Json.part_of_member own
  rw [Json.or_else_of_part part] at read
  -- What stands under the id that was chosen, whether the contract has it or the node.
  have chosen : ∀ entryId : Json, entryName (.obj fields) = entryId →
      (if entryId.truthy = true then
        (do return some (entryId.text, ← DriftSignature.ofDocument
          (.obj (contractFields (.obj fields)))))
      else return none : Except ShapeFault (Option Row)) = .ok row →
      row.isSome = isNamed (.obj fields) ∧ ∀ r ∈ row, Signed (.obj fields) r := by
    intro entryId name made
    rw [isNamed, name]
    split at made
    · next named =>
      obtain ⟨signature, taken, made⟩ := ok_of_bind made
      cases made
      refine ⟨named.symm, ?_⟩
      intro r member
      cases member
      exact ⟨congrArg Json.text name.symm, taken⟩
    · next unnamed =>
      cases made
      exact ⟨((Bool.not_eq_true _).mp unnamed).symm, by simp⟩
  refine ⟨⟨fields, rfl⟩, ?_⟩
  split at read
  · next given => exact chosen _ (if_pos given) read
  · next absent =>
    obtain ⟨entryId, here, read⟩ := ok_of_bind read
    cases here
    exact chosen _ (if_neg absent) read

/-- The nodes of a bundle whose rows are read are those of its array. -/
theorem nodes_read {bundle : Json} {rows : List (Option Row)} (read : rowsOf bundle = .ok rows) :
    nodesOf bundle = .ok (nodesIn bundle) ∧ (nodesIn bundle).mapM rowOf = .ok rows := by
  rw [rowsOf] at read
  obtain ⟨nodes, listed, passed⟩ := ok_of_bind read
  have inside := listed
  rw [nodesOf] at inside
  obtain ⟨graph, there, inside⟩ := ok_of_bind inside
  obtain ⟨within, part, inside⟩ := ok_of_bind inside
  obtain ⟨fields, rfl, rfl⟩ := Json.object_of_member there
  obtain ⟨-, rfl⟩ := Json.part_of_member part
  have same : nodesIn (.obj fields) = nodes := by
    apply Json.items_of_elements inside
    intro node member
    obtain ⟨row, made⟩ := exists_map_ok_iff.mp ⟨rows, passed⟩ node member
    exact (row_read made).1
  rw [same]
  exact ⟨listed, passed⟩

theorem rows_of_nodes {bundles : List Json} {rows : List (List (Option Row))}
    (read : bundles.mapM rowsOf = .ok rows) :
    (bundles.flatMap nodesIn).mapM rowOf = .ok rows.flatten := by
  induction bundles generalizing rows with
  | nil =>
    cases read
    rfl
  | cons bundle rest ih =>
    rw [List.mapM_cons] at read
    obtain ⟨first, here, read⟩ := ok_of_bind read
    obtain ⟨others, later, read⟩ := ok_of_bind read
    cases read
    rw [List.flatMap_cons, List.mapM_append, (nodes_read here).2, ih later]
    rfl

/-- The named nodes correspond to the rows one by one. -/
theorem named_signed {nodes : List Json} {rows : List (Option Row)}
    (read : nodes.mapM rowOf = .ok rows) :
    List.Forall₂ Signed (nodes.filter isNamed) rows.reduceOption := by
  have each := map_ok_iff.mp read
  clear read
  induction each with
  | nil => exact .nil
  | @cons node row _ _ here _ ih =>
    obtain ⟨-, named, signed⟩ := row_read here
    cases row with
    | none =>
      rw [List.filter_cons_of_neg (by simp [← named]), List.reduceOption_cons_of_none]
      exact ih
    | some r =>
      rw [List.filter_cons_of_pos named.symm, List.reduceOption_cons_of_some]
      exact .cons (signed r rfl) ih

/-- The snapshot of rows that are put one after the other. -/
def ofRows (rows : List Row) : Snapshot := rows.foldl (fun s row => s.put row.1 row.2) {}

/-- The id under which a row is put. -/
def rowId (row : Row) : String := Text.lower row.1

theorem fold_put_row (rows : List (Option Row)) :
    rows.foldl putRow {} = ofRows rows.reduceOption := by
  rw [ofRows]
  generalize ({} : Snapshot) = s
  induction rows generalizing s with
  | nil => rfl
  | cons row rest ih =>
    rw [List.foldl_cons, ih]
    cases row <;> rfl

theorem entries_of_rows (rows : List Row) :
    (ofRows rows).entries = Table.ofList (rows.map fun row => (rowId row, row.2)) := by
  have onwards : ∀ s : Snapshot, (rows.foldl (fun s row => s.put row.1 row.2) s).entries =
      rows.foldl (fun t row => t.insert (rowId row) row.2) s.entries := by
    induction rows with
    | nil => exact fun s => rfl
    | cons row rest ih => exact fun s => ih (s.put row.1 row.2)
  rw [ofRows, onwards, Table.ofList, List.foldl_map]

/-- A collision is noted for every row under an id but the first. -/
theorem count_collisions (rows : List Row) (id : String) :
    (ofRows rows).collisions.count id = (rows.map rowId).count id - 1 := by
  induction rows using List.reverseRecOn with
  | nil => rfl
  | append_singleton rows row ih =>
    have known : (ofRows rows).entries.contains (rowId row) = true ↔
        rowId row ∈ rows.map rowId := by
      rw [Table.contains_iff, entries_of_rows, Table.keys_of_list, List.mem_eraseDups,
        List.map_map]
      rfl
    have last : (ofRows (rows ++ [row])).collisions =
        if rowId row ∈ rows.map rowId then (ofRows rows).collisions ++ [rowId row]
        else (ofRows rows).collisions := by
      have put : ofRows (rows ++ [row]) = (ofRows rows).put row.1 row.2 := by simp [ofRows]
      rw [put, Snapshot.put]
      exact if_congr known rfl rfl
    rw [last, List.map_append, List.map_singleton, List.count_append]
    by_cases seen : rowId row ∈ rows.map rowId
    · have before : 0 < (rows.map rowId).count (rowId row) := List.count_pos_iff.mpr seen
      rw [if_pos seen, List.count_append, ih]
      by_cases same : rowId row = id
      · subst same
        rw [List.count_singleton_self]
        omega
      · rw [List.count_singleton, beq_eq_false_iff_ne.mpr same]
        rfl
    · rw [if_neg seen, ih]
      by_cases same : rowId row = id
      · subst same
        rw [List.count_eq_zero.mpr seen, List.count_singleton_self]
      · rw [List.count_singleton, beq_eq_false_iff_ne.mpr same]
        rfl

theorem collisions_nil_iff (rows : List Row) :
    (ofRows rows).collisions = [] ↔ (rows.map rowId).Nodup := by
  rw [List.nodup_iff_count_le_one, List.eq_nil_iff_forall_not_mem]
  constructor
  · intro none id
    have zero := List.count_eq_zero.mpr (none id)
    rw [count_collisions] at zero
    omega
  · intro once id
    apply List.count_eq_zero.mp
    rw [count_collisions]
    exact Nat.sub_eq_zero_of_le (once id)

theorem taken_of_rows (rows : List Row) : (ofRows rows).taken = rows.length := by
  induction rows using List.reverseRecOn with
  | nil => rfl
  | append_singleton rows row ih =>
    have put : ofRows (rows ++ [row]) = (ofRows rows).put row.1 row.2 := by simp [ofRows]
    rw [put, taken_put, ih, List.length_append]
    rfl

/-- What a snapshot holds of named nodes that were indexed in their order. -/
structure HoldsLast (s : Snapshot) (nodes : List Json) : Prop where
  entries : List.Forall₂ (fun node e => e.1 = indexedId node ∧ signatureOf node = .ok e.2)
    (lastOfEach indexedId nodes) s.entries.entries
  collisions : ∀ id, s.collisions.count id = (nodes.map indexedId).count id - 1
  total : s.entries.size + s.collisions.length = nodes.length

theorem holds_last {nodes : List Json} {rows : List Row}
    (signed : List.Forall₂ Signed nodes rows) : (ofRows rows).HoldsLast nodes := by
  have agree : ∀ node row, Signed node row → indexedId node = rowId row := by
    intro node row here
    exact congrArg Text.lower here.id.symm
  refine ⟨?_, ?_, ?_⟩
  · rw [entries_of_rows, Table.entries_of_list, last_of_each_map, List.forall₂_map_right_iff]
    refine (last_of_each_related agree signed).imp ?_
    intro node row here
    exact ⟨(agree node row here).symm, here.signature⟩
  · intro id
    rw [map_eq_of_related agree signed, count_collisions]
  · rw [signed.length_eq]
    exact taken_of_rows rows

/-- Bundles with the same nodes in some order. -/
def NodesReordered (bundle other : Json) : Prop :=
  ∃ nodes more, nodesOf bundle = .ok nodes ∧ nodesOf other = .ok more ∧ nodes.Perm more

/-- The same bundles in some order, each with its nodes in some order. -/
def Rearranged (bundles others : List Json) : Prop :=
  ∃ middle, bundles.Perm middle ∧ List.Forall₂ NodesReordered middle others

theorem rows_rearranged {bundles others : List Json} {rows : List (List (Option Row))}
    (same : Rearranged bundles others) (read : bundles.mapM rowsOf = .ok rows) :
    ∃ more, others.mapM rowsOf = .ok more ∧ rows.flatten.Perm more.flatten := by
  rcases same with ⟨middle, perm, each⟩
  obtain ⟨between, passed, shuffled⟩ := map_ok_of_perm perm read
  suffices onwards : ∃ more, others.mapM rowsOf = .ok more ∧
      between.flatten.Perm more.flatten by
    rcases onwards with ⟨more, done, equal⟩
    exact ⟨more, done, shuffled.flatten.trans equal⟩
  clear perm shuffled
  induction each generalizing between with
  | nil =>
    cases passed
    exact ⟨[], rfl, .refl []⟩
  | @cons bundle other _ _ here _ ih =>
    rw [List.mapM_cons] at passed
    obtain ⟨own, first, passed⟩ := ok_of_bind passed
    obtain ⟨rest, later, passed⟩ := ok_of_bind passed
    cases passed
    rcases here with ⟨nodes, others, listed, given, reordered⟩
    rw [rowsOf, listed] at first
    obtain ⟨others, pass, equal⟩ := map_ok_of_perm reordered first
    obtain ⟨more, done, same⟩ := ih rest later
    refine ⟨others :: more, ?_, equal.append same⟩
    have second : rowsOf other = .ok others := by
      rw [rowsOf, given]
      exact pass
    rw [List.mapM_cons, second, done]
    rfl

theorem of_rows_perm {rows others : List Row} (perm : rows.Perm others)
    (distinct : (rows.map rowId).Nodup) :
    (ofRows rows).entries.entries.Perm (ofRows others).entries.entries := by
  have kept : ∀ {rows : List Row}, (rows.map rowId).Nodup →
      (ofRows rows).entries.entries = rows.map fun row => (rowId row, row.2) := by
    intro rows distinct
    rw [entries_of_rows]
    apply Table.entries_fold_insert
    refine List.pairwise_map.mpr ((List.pairwise_map.mp distinct).imp ?_)
    intro a b apart
    exact beq_eq_false_iff_ne.mpr apart
  rw [kept distinct, kept ((perm.map rowId).nodup_iff.mp distinct)]
  exact perm.map _

/-- A comparison does not see the order of the entries. -/
theorem compare_congr {a b : Snapshot} (perm : a.entries.entries.Perm b.entries.entries)
    (c : Snapshot) : a.compare c = b.compare c ∧ c.compare a = c.compare b := by
  have get := Table.get_of_perm perm
  have contains : ∀ id, a.entries.contains id = b.entries.contains id := by
    intro id
    rw [Table.contains_eq, Table.contains_eq, get]
  have keys : a.entries.keys.Perm b.entries.keys := perm.map _
  have missing : a.idsOnlyIn c = b.idsOnlyIn c := Text.sorted_eq_iff.mpr (keys.filter _)
  have new : c.idsOnlyIn a = c.idsOnlyIn b := by simp only [idsOnlyIn, contains]
  have before : changedFrom a c = changedFrom b c := by
    funext id
    simp only [changedFrom, get]
  have after : changedFrom c a = changedFrom c b := by
    funext id
    simp only [changedFrom, get]
  constructor
  · rw [compare, compare, missing, new, before]
  · rw [compare, compare, missing, new, after, Text.sorted_eq_iff.mpr keys]

/-- A snapshot without collisions is taken without an event. -/
theorem of_bundles_quiet {bundles : Json} {s : Snapshot}
    (taken : (ofBundles bundles).outcome = .ok s) (quiet : s.collisions = []) :
    ofBundles bundles = pure s := by
  obtain ⟨read, lifted, done⟩ := Logged.ok_of_bind taken
  have folded := Logged.ok_of_lift lifted
  have same : read = s := by
    split at done
    · exact Except.ok.inj done
    · exact Except.ok.inj done
  have lift : (liftM (Except.ok s : Except ShapeFault Snapshot) : Logged Snapshot) = pure s := rfl
  rw [ofBundles, folded, same, lift, Logged.after_pure]
  exact if_neg (by simp [quiet])

end Snapshot

/-- A snapshot holds for every lower-case id what the last named node says that has it, in the order
in which the ids first occur, and notes a collision for each node that was replaced. Without
collisions no comparison, from or to any other document, sees the order of the bundles or of the
nodes in them. -/
theorem last_nodes_indexed {bundles : List Json} {s : Snapshot}
    (taken : (Snapshot.ofBundles (.arr bundles)).outcome = .ok s) :
    s.HoldsLast ((documentNodes (.arr bundles)).filter isNamed) ∧
      (s.collisions = [] → ∀ others, Snapshot.Rearranged bundles others → ∀ other,
        compareBundles (.arr others) other = compareBundles (.arr bundles) other ∧
          compareBundles other (.arr others) = compareBundles other (.arr bundles)) := by
  obtain ⟨items, rows, elements, read, rfl⟩ := Snapshot.of_bundles_ok_iff.mp taken
  cases elements
  have signed := Snapshot.named_signed (Snapshot.rows_of_nodes read)
  rw [Snapshot.fold_put_row] at taken ⊢
  refine ⟨Snapshot.holds_last signed, ?_⟩
  intro none others same other
  obtain ⟨more, passed, perm⟩ := Snapshot.rows_rearranged same read
  have distinct := (Snapshot.collisions_nil_iff _).mp none
  have reordered : rows.flatten.reduceOption.Perm more.flatten.reduceOption := perm.filterMap _
  have retaken : (Snapshot.ofBundles (.arr others)).outcome =
      .ok (Snapshot.ofRows more.flatten.reduceOption) := by
    rw [← Snapshot.fold_put_row]
    exact Snapshot.of_bundles_ok_iff.mpr ⟨others, more, rfl, passed, rfl⟩
  have quiet : (Snapshot.ofRows more.flatten.reduceOption).collisions = [] :=
    (Snapshot.collisions_nil_iff _).mpr ((reordered.map _).nodup_iff.mp distinct)
  have alike := Snapshot.compare_congr (Snapshot.of_rows_perm reordered distinct)
  rw [compareBundles, compareBundles, compareBundles, compareBundles,
    Snapshot.of_bundles_quiet taken none, Snapshot.of_bundles_quiet retaken quiet]
  constructor
  · simp only [Logged.after_pure, alike]
  · simp only [Logged.after_pure, alike]

/-- Two bundles in which no id is repeated and one node has none, and the same bundles in the other
order with the nodes of the first one in another order. -/
def rearranged : List Json × List Json := (
  [bundleOf [("b.tsx", []), ("", [.int 1]), ("A.tsx", [.str "x"])], bundleOf [("C.tsx", [])]],
  [bundleOf [("C.tsx", [])], bundleOf [("A.tsx", [.str "x"]), ("b.tsx", []), ("", [.int 1])]])

theorem last_nodes_indexed_of_rearranged :
    ∃ s, (Snapshot.ofBundles (.arr rearranged.1)).outcome = .ok s ∧
      s.HoldsLast ((documentNodes (.arr rearranged.1)).filter isNamed) ∧ s.collisions = [] ∧
      Snapshot.Rearranged rearranged.1 rearranged.2 ∧ ∀ other,
        compareBundles (.arr rearranged.2) other = compareBundles (.arr rearranged.1) other ∧
          compareBundles other (.arr rearranged.2) = compareBundles other (.arr rearranged.1) := by
  obtain ⟨s, taken, quiet⟩ : ∃ s, (Snapshot.ofBundles (.arr rearranged.1)).outcome = .ok s ∧
      s.collisions = [] := ⟨_, rfl, by decide +kernel⟩
  have same : Snapshot.Rearranged rearranged.1 rearranged.2 := by
    refine ⟨[_, _], .swap _ _ [], .cons ⟨_, _, rfl, rfl, .refl _⟩ (.cons ⟨_, _, rfl, rfl, ?_⟩ .nil)⟩
    decide +kernel
  obtain ⟨holds, unseen⟩ := last_nodes_indexed taken
  exact ⟨s, taken, holds, quiet, same, unseen quiet _ same⟩

example : (Snapshot.ofBundles (.arr [bundleOf [("A.tsx", [.int 1]), ("b.tsx", [])],
    bundleOf [("a.tsx", [.int 2]), ("A.TSX", [.int 3])]])).outcome.map
      (fun s => (s.entries.entries.map fun e => (e.1, e.2.imports), s.collisions)) =
    .ok ([("a.tsx", [.int 3]), ("b.tsx", [])], ["a.tsx", "a.tsx"]) := by decide +kernel

end ContractGraph
