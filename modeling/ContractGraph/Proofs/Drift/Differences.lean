import ContractGraph.Drift.Compare
import ContractGraph.Proofs.Drift.Indexed
import ContractGraph.Proofs.Json.Same

/-!
# Differences of snapshots

A comparison tells exactly the ids apart that only one of two snapshots has and those whose
signatures differ in some signal, and it passes when the snapshots are equal as mappings. Values are
compared as values. Comparing the other way round exchanges what was added with what was removed, and
the old with the new side of every delta.
-/

namespace ContractGraph

set_option autoImplicit false

namespace Delta

/-- Whether the two sides differ as values. -/
def differs (d : Delta) : Bool := !d.old.same d.new

def swap : Delta → Delta
  | .hash old new => .hash new old
  | .imports old new => .imports new old
  | .hooks old new => .hooks new old
  | .exports old new => .exports new old

end Delta

theorem ExportKind.word_injective {a b : ExportKind} (same : a.word = b.word) : a = b := by
  cases a <;> cases b <;> first | rfl | exact absurd same (by decide)

namespace DriftSignature

/-- Equality of signatures; imports and hooks are compared as values. -/
def Alike (a b : DriftSignature) : Prop :=
  a.semanticHash = b.semanticHash ∧ Json.same (.arr a.imports) (.arr b.imports) = true ∧
    Json.same (.arr a.hooks) (.arr b.hooks) = true ∧ a.exportKind = b.exportKind

/-- All signals of two signatures, in their fixed order. -/
def signals (a b : DriftSignature) : List Delta := [
  .hash a.semanticHash b.semanticHash,
  .imports a.imports b.imports,
  .hooks a.hooks b.hooks,
  .exports a.exportKind b.exportKind]

theorem kept_unless {d : Delta} {p : Prop} [Decidable p] (same : d.differs = !decide p) :
    (if p then [] else [d]) = [d].filter Delta.differs := by
  by_cases given : p <;> simp [same, given]

theorem deltas_eq (a b : DriftSignature) : a.deltas b = (signals a b).filter Delta.differs := by
  have hash : (Delta.hash a.semanticHash b.semanticHash).differs =
      !decide (a.semanticHash = b.semanticHash) := rfl
  have imports : (Delta.imports a.imports b.imports).differs =
      !decide (Json.sameItems a.imports b.imports = true) := by
    simp [Delta.differs, Delta.old, Delta.new, Json.same]
  have hooks : (Delta.hooks a.hooks b.hooks).differs =
      !decide (Json.sameItems a.hooks b.hooks = true) := by
    simp [Delta.differs, Delta.old, Delta.new, Json.same]
  have exports : (Delta.exports a.exportKind b.exportKind).differs =
      !decide (a.exportKind = b.exportKind) := by
    have words : a.exportKind.word = b.exportKind.word ↔ a.exportKind = b.exportKind :=
      ⟨ExportKind.word_injective, fun same => congrArg ExportKind.word same⟩
    rw [← decide_eq_decide.mpr words]
    rfl
  have parts : signals a b = [.hash a.semanticHash b.semanticHash] ++
      [.imports a.imports b.imports] ++ [.hooks a.hooks b.hooks] ++
      [.exports a.exportKind b.exportKind] := rfl
  rw [parts, List.filter_append, List.filter_append, List.filter_append, ← kept_unless hash,
    ← kept_unless imports, ← kept_unless hooks, ← kept_unless exports]
  rfl

theorem deltas_nil_iff (a b : DriftSignature) : a.deltas b = [] ↔ a.Alike b := by
  simp [deltas, Alike, Json.same]

/-- No object in the imports or the hooks holds a key twice. -/
def Apart (s : DriftSignature) : Prop := (Json.arr s.imports).KeysApart ∧ (Json.arr s.hooks).KeysApart

theorem deltas_swap {a b : DriftSignature} (first : a.Apart) (second : b.Apart) :
    b.deltas a = (a.deltas b).map Delta.swap := by
  have imports := Json.same_symm first.1 second.1
  have hooks := Json.same_symm first.2 second.2
  simp only [Json.same] at imports hooks
  simp only [deltas, List.map_append, ← imports, ← hooks, eq_comm (a := b.semanticHash),
    eq_comm (a := b.exportKind), apply_ite (List.map Delta.swap)]
  rfl

end DriftSignature

def ChangedComponent.swap (x : ChangedComponent) : ChangedComponent :=
  { x with deltas := x.deltas.map Delta.swap }

theorem ChangedComponent.swap_swap (x : ChangedComponent) : x.swap.swap = x := by
  have twice : ∀ d : Delta, d.swap.swap = d := by
    intro d
    cases d <;> rfl
  simp [swap, Function.comp_def, twice]

namespace Comparison

/-- The comparison the other way round. -/
def swap (c : Comparison) : Comparison where
  added := c.removed
  removed := c.added
  changed := c.changed.map ChangedComponent.swap

end Comparison

theorem Table.contains_iff {κ α : Type} [BEq κ] [LawfulBEq κ] (t : Table κ α) (key : κ) :
    t.contains key = true ↔ key ∈ t.keys := by
  rw [t.contains_eq, Option.isSome_iff_exists, t.mem_keys_iff]

namespace Snapshot

variable {old new : Snapshot}

theorem mem_ids_only_in_iff (a b : Snapshot) (id : String) :
    id ∈ a.idsOnlyIn b ↔ id ∈ a.entries.keys ∧ id ∉ b.entries.keys := by
  simp [idsOnlyIn, ← Table.contains_iff]

theorem ids_only_in_ascend (a b : Snapshot) : (a.idsOnlyIn b).Pairwise (· < ·) :=
  Text.sorted_ascending (a.entries.keys_nodup.filter _)

theorem changed_from_eq_some_iff {id : String} {x : ChangedComponent} :
    changedFrom old new id = some x ↔ x.id = id ∧ ∃ a b, old.entries.get? id = some a ∧
      new.entries.get? id = some b ∧ ¬ a.Alike b ∧ x.deltas = a.deltas b := by
  simp only [changedFrom, Option.bind_eq_bind, Option.bind_eq_some_iff]
  constructor
  · rintro ⟨a, there, b, here, made⟩
    split at made
    · cases made
    · next some =>
      cases made
      refine ⟨rfl, a, b, there, here, ?_, rfl⟩
      rwa [← DriftSignature.deltas_nil_iff, ← List.isEmpty_iff]
  · rintro ⟨rfl, a, b, there, here, apart, deltas⟩
    rw [← DriftSignature.deltas_nil_iff, ← List.isEmpty_iff] at apart
    exact ⟨a, there, b, here, by rw [if_neg apart, ← deltas]⟩

/-- What a comparison says about a changed component. -/
theorem mem_changed_iff (x : ChangedComponent) :
    x ∈ (old.compare new).changed ↔ ∃ a b, old.entries.get? x.id = some a ∧
      new.entries.get? x.id = some b ∧ ¬ a.Alike b ∧ x.deltas = a.deltas b := by
  simp only [compare, List.mem_filterMap, Text.mem_sorted, changed_from_eq_some_iff]
  constructor
  · rintro ⟨id, -, rfl, change⟩
    exact change
  · rintro ⟨a, b, there, here, change⟩
    exact ⟨x.id, (Table.mem_keys_iff _ _).mpr ⟨b, here⟩, rfl, a, b, there, here, change⟩

theorem changed_ascend (old new : Snapshot) :
    (old.compare new).changed.Pairwise fun x y => x.id < y.id := by
  refine List.pairwise_filterMap.mpr ?_
  refine (Text.sorted_ascending new.entries.keys_nodup).imp ?_
  intro i j less x first y second
  rw [(changed_from_eq_some_iff.mp first).1, (changed_from_eq_some_iff.mp second).1]
  exact less

/-- The signatures hold no object with a key twice. -/
def Apart (s : Snapshot) : Prop :=
  ∀ id signature, s.entries.get? id = some signature → signature.Apart

/-- A changed component is found the other way round as well. -/
theorem swapped_change (first : old.Apart) (second : new.Apart) {x : ChangedComponent}
    (change : x ∈ (old.compare new).changed) : x.swap ∈ (new.compare old).changed := by
  obtain ⟨a, b, there, here, apart, deltas⟩ := (mem_changed_iff x).mp change
  have swapped := DriftSignature.deltas_swap (first _ a there) (second _ b here)
  refine (mem_changed_iff x.swap).mpr ⟨b, a, here, there, ?_, ?_⟩
  · rwa [← DriftSignature.deltas_nil_iff, swapped, List.map_eq_nil_iff,
      DriftSignature.deltas_nil_iff]
  · rw [swapped, ← deltas]
    rfl

theorem compare_swap (first : old.Apart) (second : new.Apart) :
    new.compare old = (old.compare new).swap := by
  have ascend : (old.compare new).swap.changed.Pairwise fun x y => x.id < y.id :=
    List.pairwise_map.mpr (changed_ascend old new)
  have changes : ∀ x, x ∈ (new.compare old).changed ↔ x ∈ (old.compare new).swap.changed := by
    intro x
    rw [Comparison.swap, List.mem_map]
    constructor
    · intro change
      exact ⟨x.swap, swapped_change second first change, x.swap_swap⟩
    · rintro ⟨y, change, rfl⟩
      exact swapped_change first second change
  have changed := Text.eq_of_ascending_on (changed_ascend new old) ascend changes
  calc new.compare old = ⟨old.idsOnlyIn new, new.idsOnlyIn old, (new.compare old).changed⟩ := rfl
    _ = (old.compare new).swap := by
      rw [changed]
      rfl

end Snapshot

theorem DriftSignature.apart_of_document {d : Json} (apart : d.KeysApart) {s : DriftSignature}
    (taken : ofDocument d = .ok s) : s.Apart := by
  rw [ofDocument] at taken
  obtain ⟨composition, part, taken⟩ := ok_of_bind taken
  obtain ⟨hash, -, taken⟩ := ok_of_bind taken
  obtain ⟨importing, first, taken⟩ := ok_of_bind taken
  obtain ⟨imports, listed, taken⟩ := ok_of_bind taken
  obtain ⟨hooking, second, taken⟩ := ok_of_bind taken
  obtain ⟨hooks, listed', taken⟩ := ok_of_bind taken
  obtain ⟨exports, -, taken⟩ := ok_of_bind taken
  cases taken
  have whole := (apart.renamed_member part).or_else .empty
  exact ⟨.arr ((whole.member first).elements_or_none listed),
    .arr ((whole.member second).elements_or_none listed')⟩

namespace Snapshot

theorem Apart.put_row {s : Snapshot} (apart : s.Apart) {row : Option Row}
    (signed : ∀ r ∈ row, r.2.Apart) : (s.putRow row).Apart := by
  cases row with
  | none => exact apart
  | some r =>
    intro id signature found
    rw [putRow, put, Table.get_insert] at found
    split at found
    · cases found
      exact signed r rfl
    · exact apart id signature found

theorem apart_of_rows {bundle : Json} (apart : bundle.KeysApart) {rows : List (Option Row)}
    (read : rowsOf bundle = .ok rows) : ∀ row ∈ rows, ∀ r ∈ row, r.2.Apart := by
  rw [rowsOf] at read
  obtain ⟨nodes, inside, read⟩ := ok_of_bind read
  rw [nodesOf] at inside
  obtain ⟨graph, there, inside⟩ := ok_of_bind inside
  obtain ⟨listed, within, inside⟩ := ok_of_bind inside
  have each := (((apart.member there).or_else .empty).member within).elements_or_none inside
  intro row member r some
  obtain ⟨node, here, made⟩ := exists_of_map_ok read member
  rw [Option.mem_def.mp some] at made
  obtain ⟨contract, embedded, taken⟩ := signature_of_row made
  exact DriftSignature.apart_of_document (((each node here).member embedded).or_else .empty) taken

theorem apart_of_bundles {bundles : Json} (apart : bundles.KeysApart) {s : Snapshot}
    (taken : (ofBundles bundles).outcome = .ok s) : s.Apart := by
  obtain ⟨items, rows, elements, read, rfl⟩ := of_bundles_ok_iff.mp taken
  have each : ∀ row ∈ rows.flatten, ∀ r ∈ row, r.2.Apart := by
    intro row member
    obtain ⟨some, inside, member⟩ := List.mem_flatten.mp member
    obtain ⟨bundle, here, made⟩ := exists_of_map_ok read inside
    exact apart_of_rows (apart.elements elements bundle here) made row member
  have start : Apart {} := by
    intro id signature found
    cases found
  generalize rows.flatten = rows at each
  generalize ({} : Snapshot) = s at start
  induction rows generalizing s with
  | nil => exact start
  | cons row rest ih =>
    rw [List.forall_mem_cons] at each
    exact ih each.2 (s.putRow row) (start.put_row each.1)

/-- Equality as mappings. -/
def SameMapping (a b : Snapshot) : Prop :=
  (∀ id, id ∈ a.entries.keys ↔ id ∈ b.entries.keys) ∧
    ∀ id x y, a.entries.get? id = some x → b.entries.get? id = some y → x.Alike y

theorem passed_iff (old new : Snapshot) :
    (old.compare new).passed = true ↔ old.SameMapping new := by
  have added : (old.compare new).added = [] ↔ ∀ id ∈ new.entries.keys, id ∈ old.entries.keys := by
    simp only [List.eq_nil_iff_forall_not_mem, compare, mem_ids_only_in_iff, not_and, not_not]
  have removed : (old.compare new).removed = [] ↔ ∀ id ∈ old.entries.keys, id ∈ new.entries.keys := by
    simp only [List.eq_nil_iff_forall_not_mem, compare, mem_ids_only_in_iff, not_and, not_not]
  have changed : (old.compare new).changed = [] ↔ ∀ id x y, old.entries.get? id = some x →
      new.entries.get? id = some y → x.Alike y := by
    rw [List.eq_nil_iff_forall_not_mem]
    constructor
    · intro none id x y there here
      by_contra apart
      exact none ⟨id, x.deltas y⟩ ((mem_changed_iff _).mpr ⟨x, y, there, here, apart, rfl⟩)
    · intro alike x change
      obtain ⟨a, b, there, here, apart, -⟩ := (mem_changed_iff x).mp change
      exact apart (alike x.id a b there here)
  simp only [Comparison.passed, Bool.and_eq_true, List.isEmpty_iff, added, removed, changed,
    SameMapping]
  constructor
  · rintro ⟨⟨more, less⟩, alike⟩
    exact ⟨fun id => ⟨less id, more id⟩, alike⟩
  · rintro ⟨keys, alike⟩
    exact ⟨⟨fun id => (keys id).mpr, fun id => (keys id).mp⟩, alike⟩

/-- What a comparison reports about two snapshots. -/
structure Reported (old new : Snapshot) (c : Comparison) : Prop where
  mem_added : ∀ id, id ∈ c.added ↔ id ∈ new.entries.keys ∧ id ∉ old.entries.keys
  mem_removed : ∀ id, id ∈ c.removed ↔ id ∈ old.entries.keys ∧ id ∉ new.entries.keys
  mem_changed : ∀ x, x ∈ c.changed ↔ ∃ a b, old.entries.get? x.id = some a ∧
    new.entries.get? x.id = some b ∧ ¬ a.Alike b ∧ x.deltas = (a.signals b).filter Delta.differs
  added_ascend : c.added.Pairwise (· < ·)
  removed_ascend : c.removed.Pairwise (· < ·)
  changed_ascend : (c.changed.map (·.id)).Pairwise (· < ·)
  apart : (c.added ++ c.removed ++ c.changed.map (·.id)).Nodup
  status : Comparison.statusWord c.passed = "PASS" ↔ old.SameMapping new

theorem compare_reported (old new : Snapshot) : Reported old new (old.compare new) where
  mem_added := mem_ids_only_in_iff new old
  mem_removed := mem_ids_only_in_iff old new
  mem_changed := by
    intro x
    simp only [mem_changed_iff, DriftSignature.deltas_eq]
  added_ascend := ids_only_in_ascend new old
  removed_ascend := ids_only_in_ascend old new
  changed_ascend := List.pairwise_map.mpr (Snapshot.changed_ascend old new)
  apart := by
    have shared : ∀ id ∈ (old.compare new).changed.map (·.id),
        id ∈ old.entries.keys ∧ id ∈ new.entries.keys := by
      intro id member
      obtain ⟨x, change, rfl⟩ := List.mem_map.mp member
      obtain ⟨a, b, there, here, -⟩ := (mem_changed_iff x).mp change
      exact ⟨(Table.mem_keys_iff _ _).mpr ⟨a, there⟩, (Table.mem_keys_iff _ _).mpr ⟨b, here⟩⟩
    refine List.nodup_append'.mpr ⟨List.nodup_append'.mpr ⟨?_, ?_, ?_⟩, ?_, ?_⟩
    · exact Text.nodup_of_ascending (ids_only_in_ascend new old)
    · exact Text.nodup_of_ascending (ids_only_in_ascend old new)
    · intro id more less
      exact ((mem_ids_only_in_iff new old id).mp more).2 ((mem_ids_only_in_iff old new id).mp less).1
    · exact Text.nodup_of_ascending (List.pairwise_map.mpr (Snapshot.changed_ascend old new))
    · intro id one change
      rcases List.mem_append.mp one with more | less
      · exact ((mem_ids_only_in_iff new old id).mp more).2 (shared id change).1
      · exact ((mem_ids_only_in_iff old new id).mp less).2 (shared id change).2
  status := by
    rw [← passed_iff]
    cases (old.compare new).passed <;> simp [Comparison.statusWord]

end Snapshot

theorem compare_bundles_ok_iff {old new : Json} {c : Comparison} :
    (compareBundles old new).outcome = .ok c ↔ ∃ a b, (Snapshot.ofBundles old).outcome = .ok a ∧
      (Snapshot.ofBundles new).outcome = .ok b ∧ c = a.compare b := by
  constructor
  · intro done
    obtain ⟨a, first, done⟩ := Logged.ok_of_bind done
    obtain ⟨b, second, done⟩ := Logged.ok_of_bind done
    exact ⟨a, b, first, second, (Except.ok.inj done).symm⟩
  · rintro ⟨a, b, first, second, rfl⟩
    simp only [compareBundles, Logged.outcome_bind, first, second]
    rfl

/-- A comparison of snapshots reports exactly the ids of one side and the signals that differ, each id
once and in ascending order, and it passes when both are equal as mappings. The comparison of two
documents the other way round is the same one with its sides exchanged. -/
theorem differences_reported :
    (∀ old new : Snapshot, Snapshot.Reported old new (old.compare new)) ∧
      ∀ old new : Json, old.KeysApart → new.KeysApart → ∀ c,
        (compareBundles old new).outcome = .ok c →
          (compareBundles new old).outcome = .ok c.swap := by
  refine ⟨Snapshot.compare_reported, ?_⟩
  intro old new first second c done
  obtain ⟨a, b, before, after, rfl⟩ := compare_bundles_ok_iff.mp done
  have swapped := Snapshot.compare_swap (Snapshot.apart_of_bundles first before)
    (Snapshot.apart_of_bundles second after)
  exact compare_bundles_ok_iff.mpr ⟨b, a, after, before, swapped.symm⟩

/-- A bundle of nodes that have an id and imports each. -/
def bundleOf (nodes : List (String × List Json)) : Json :=
  .record [("graph", .record [("nodes", .arr (nodes.map fun node =>
    .record [("entryId", .str node.1), ("contract", .record [
      ("composition", .record [("imports", .arr node.2)])])]))])]

/-- The imports of one component change, another one is taken away. -/
def drifted : Json × Json := (
  .arr [bundleOf [("A.tsx", [.int 1]), ("b.tsx", [])]],
  .arr [bundleOf [("a.tsx", [.str "y"])]])

theorem differences_reported_of_drifted :
    drifted.1.KeysApart ∧ drifted.2.KeysApart ∧
      (compareBundles drifted.1 drifted.2).outcome =
        .ok ⟨[], ["b.tsx"], [⟨"a.tsx", [.imports [.int 1] [.str "y"]]⟩]⟩ ∧
      (compareBundles drifted.2 drifted.1).outcome =
        .ok ⟨["b.tsx"], [], [⟨"a.tsx", [.imports [.str "y"] [.int 1]]⟩]⟩ := by
  have first : drifted.1.KeysApart := Json.keys_apart_of_document _ (by decide +kernel)
  have second : drifted.2.KeysApart := Json.keys_apart_of_document _ (by decide +kernel)
  have one : ∀ s : String, Text.sorted [s] = [s] := fun s => List.mergeSort_singleton s
  have none : Text.sorted [] = [] := List.mergeSort_nil
  have done : (compareBundles drifted.1 drifted.2).outcome =
      .ok ⟨[], ["b.tsx"], [⟨"a.tsx", [.imports [.int 1] [.str "y"]]⟩]⟩ := by
    refine compare_bundles_ok_iff.mpr ⟨_, _, rfl, rfl, ?_⟩
    rw [Snapshot.compare, Snapshot.idsOnlyIn, Snapshot.idsOnlyIn]
    congr 1
    · exact none.symm
    · exact (one "b.tsx").symm
    · refine Eq.trans ?_ (congrArg (List.filterMap _) (one "a.tsx")).symm
      rfl
  exact ⟨first, second, done, differences_reported.2 _ _ first second _ done⟩

end ContractGraph
