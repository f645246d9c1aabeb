import ContractGraph.Proofs.Json.Ordered
import ContractGraph.Proofs.Json.Readable
import ContractGraph.Proofs.Manifest.Built

/-!
# Manifests of texts

A hash is a text. So whatever a manifest holds that was built from contracts is a text, and its
document has few levels and no number but the number of its components.
-/

namespace ContractGraph

set_option autoImplicit false

structure Hasher.GivesTexts (hasher : Hasher) : Prop where
  structure_hash : ∀ c v, hasher.structureHash c = .ok v → v.isString = true
  signature_hash : ∀ i v, hasher.signatureHash i = .ok v → v.isString = true

theorem Hasher.standard_gives_texts : Hasher.standard.GivesTexts where
  structure_hash := by
    intro c v done
    obtain ⟨hash, -, rfl⟩ := ok_of_map done
    rfl
  signature_hash := by
    intro i v done
    obtain ⟨hash, -, rfl⟩ := ok_of_map done
    rfl

theorem Hasher.constant_gives_texts (s g : String) :
    (Hasher.constant (.str s) (.str g)).GivesTexts where
  structure_hash := by
    intro c v done
    cases done
    rfl
  signature_hash := by
    intro i v done
    cases done
    rfl

namespace Json

variable {digits levels : Nat}

theorem readable_of_string {v : Json} (text : v.isString = true) : Readable digits levels v := by
  cases v with
  | str s => exact .str s
  | _ => cases text

theorem readable_of_texts {items : List Json} (only : OnlyTexts items) :
    Readable digits (levels + 1) (.arr items) :=
  .arr fun v member => readable_of_string (only v member)

end Json

open Json (OnlyTexts Readable readable_of_string readable_of_texts)

variable {hasher : Hasher}

namespace Component

structure HoldsTexts (c : Component) : Prop where
  scalars : ∀ v ∈ [c.entryId, c.description, c.semanticHash, c.structureHash, c.signatureHash],
    v.isString = true
  lists : ∀ items ∈ [c.dependencies, c.usedBy, c.imports, c.routes], OnlyTexts items

theorem of_contract_holds_texts (texts : hasher.GivesTexts) {k : Contract} {c : Component}
    (made : ofContract hasher k = .ok c) : c.HoldsTexts := by
  obtain ⟨structureHash, first, made⟩ := ok_of_bind made
  obtain ⟨signatureHash, second, made⟩ := ok_of_bind made
  cases made
  have structures := texts.structure_hash _ _ first
  have signatures := texts.signature_hash _ _ second
  constructor
  · simp only [List.forall_mem_cons]
    exact ⟨rfl, rfl, rfl, structures, signatures, by simp⟩
  · simp only [List.forall_mem_cons]
    exact ⟨Json.only_texts_map _, by simp [OnlyTexts], Json.only_texts_map _,
      Json.only_texts_map _, by simp⟩

theorem HoldsTexts.readable {c : Component} (texts : c.HoldsTexts) {digits : Nat} :
    Readable digits 2 c.toValue := by
  obtain ⟨scalars, lists⟩ := texts
  simp only [List.forall_mem_cons] at scalars lists
  obtain ⟨entryId, description, semanticHash, structureHash, signatureHash, -⟩ := scalars
  obtain ⟨dependencies, usedBy, imports, routes, -⟩ := lists
  have member : ∀ {name : String} {hash : Json}, hash.isString = true →
      hashMember name hash = [(name, hash)] := by
    intro name hash text
    cases hash <;> first | rfl | cases text
  rw [toValue, member structureHash, member signatureHash]
  refine .obj (by simp) ?_
  simp only [List.cons_append, List.nil_append, List.forall_mem_cons]
  exact ⟨readable_of_string entryId, readable_of_string description, readable_of_texts dependencies,
    readable_of_texts usedBy, readable_of_texts imports, readable_of_texts routes,
    readable_of_string semanticHash, readable_of_string structureHash,
    readable_of_string signatureHash, by simp⟩

end Component

namespace HashIndex

def BucketsHoldTexts (t : Table Key (List Json)) : Prop :=
  ∀ e ∈ t.entries, (Json.ofKey e.1).isString = true ∧ OnlyTexts e.2

theorem add_hash_holds_texts {t t' : Table Key (List Json)} {hash : Json} {key : String}
    (before : BucketsHoldTexts t) (text : hash.isString = true)
    (done : addHash t hash key = .ok t') : BucketsHoldTexts t' := by
  cases hash with
  | str s =>
    rw [addHash] at done
    split at done
    · cases done
      refine Table.alter_entries_keep
        (P := fun k items => (Json.ofKey k).isString = true ∧ OnlyTexts items) before ?_
        ⟨rfl, by simp [OnlyTexts, Json.isString]⟩
      intro k items kept
      exact ⟨kept.1, List.forall_mem_append.mpr ⟨kept.2, by simp [Json.isString]⟩⟩
    · cases done
      exact before
  | _ => cases text

structure HoldsTexts (index : HashIndex) : Prop where
  structures : BucketsHoldTexts index.structures
  signatures : BucketsHoldTexts index.signatures

theorem of_components_holds_texts {components : Table String Component} {index : HashIndex}
    (texts : ∀ e ∈ components.entries, e.2.HoldsTexts)
    (done : ofComponents components = .ok index) : index.HoldsTexts := by
  refine fold_keeps HoldsTexts ?_ ⟨by simp [BucketsHoldTexts], by simp [BucketsHoldTexts]⟩ done
  intro e member index index' before added
  obtain ⟨structures, first, added⟩ := ok_of_bind added
  obtain ⟨signatures, second, added⟩ := ok_of_bind added
  cases added
  have scalars := (texts e member).scalars
  simp only [List.forall_mem_cons] at scalars
  exact ⟨add_hash_holds_texts before.structures scalars.2.2.2.1 first,
    add_hash_holds_texts before.signatures scalars.2.2.2.2.1 second⟩

theorem buckets_readable {t : Table Key (List Json)} (texts : BucketsHoldTexts t) {digits : Nat} :
    Readable digits 2 (bucketsToValue t) := by
  have spelled : ∀ e ∈ t.entries, e.1 = .str (Json.ofKey e.1).text := by
    intro e member
    have text := (texts e member).1
    rcases e with ⟨k, items⟩
    cases k <;> first | rfl | cases text
  have members : bucketsToValue t = .obj ((t.entries.map fun e =>
      ((Json.ofKey e.1).text, Json.arr e.2)).map fun f => (.str f.1, f.2)) := by
    rw [bucketsToValue, List.map_map]
    congr 1
    apply List.map_congr_left
    intro e member
    exact congrArg (·, Json.arr e.2) (spelled e member)
  rw [members]
  refine .obj ?_ ?_
  · rw [List.map_map]
    refine List.pairwise_map.mpr (t.distinct.imp_of_mem ?_)
    intro a b first second apart same
    rw [spelled a first, spelled b second, Key.str_beq_str] at apart
    exact absurd same (by simpa using apart)
  · intro f member
    obtain ⟨e, here, rfl⟩ := List.mem_map.mp member
    exact readable_of_texts (texts e here).2

theorem HoldsTexts.readable {index : HashIndex} (texts : index.HoldsTexts) {digits : Nat} :
    Readable digits 3 index.toValue := by
  refine .obj (by simp) ?_
  simp only [List.forall_mem_cons]
  exact ⟨buckets_readable texts.structures, buckets_readable texts.signatures, by simp⟩

end HashIndex

namespace Manifest

variable {contracts : List Contract} {m : Manifest} {now : String} {withIndex : Bool}

structure HoldsTexts (m : Manifest) : Prop where
  components : ∀ e ∈ m.components.entries, e.2.HoldsTexts
  roots : OnlyTexts m.roots
  leaves : OnlyTexts m.leaves
  hash_index : ∀ index, m.hashIndex = some index → index.HoldsTexts
  generated_at : m.generatedAt.isString = true
  version : m.version.isString = true

theorem add_contracts_hold_texts (texts : hasher.GivesTexts) {t : Table String Component}
    (added : (contracts.foldlM (addContract hasher) .empty).outcome = .ok t) :
    ∀ e ∈ t.entries, e.2.HoldsTexts := by
  refine Logged.fold_keeps (fun t => ∀ e ∈ t.entries, e.2.HoldsTexts) ?_ (by simp) added
  intro k _ t t' before added e here
  obtain ⟨c, made, rfl⟩ := add_contract_parts added
  rcases Table.mem_insert here with rfl | ⟨-, old⟩
  · exact Component.of_contract_holds_texts texts made
  · exact before e old

theorem of_components_header {t : Table String Component}
    (done : ofComponents now withIndex t = .ok m) :
    m.generatedAt = .str now ∧ m.version = .str currentVersion ∧
      ∀ index, m.hashIndex = some index → HashIndex.ofComponents m.components = .ok index := by
  simp only [ofComponents] at done
  split at done
  · obtain ⟨index, indexed, done⟩ := ok_of_bind done
    cases done
    refine ⟨rfl, rfl, ?_⟩
    rintro own rfl
    obtain ⟨own, made, same⟩ := ok_of_map indexed
    cases same
    exact made
  · obtain ⟨index, indexed, done⟩ := ok_of_bind done
    cases indexed
    cases done
    refine ⟨rfl, rfl, ?_⟩
    rintro own none
    cases none

/-- A manifest that was built from contracts holds texts only. -/
theorem build_holds_texts (texts : hasher.GivesTexts)
    (built : (build now hasher withIndex contracts).outcome = .ok m) : m.HoldsTexts := by
  obtain ⟨t, added, done⟩ := build_parts built
  have before := add_contracts_hold_texts texts added
  have unused := fun e member => (add_contracts_made added e member).2
  obtain ⟨-, linked⟩ := of_components_linked unused done
  obtain ⟨-, roots, leaves, -⟩ := of_components_parts done
  obtain ⟨generatedAt, version, index⟩ := of_components_header done
  have components : ∀ e ∈ m.components.entries, e.2.HoldsTexts := by
    intro e member
    rw [linked] at member
    obtain ⟨c, here, rfl⟩ := List.mem_map.mp member
    obtain ⟨scalars, lists⟩ := before c here
    refine ⟨scalars, ?_⟩
    simp only [List.forall_mem_cons] at lists ⊢
    exact ⟨lists.1, Json.only_texts_map _, lists.2.2⟩
  exact {
    components
    roots := roots ▸ Json.only_texts_map _
    leaves := leaves ▸ Json.only_texts_map _
    hash_index := fun own there => HashIndex.of_components_holds_texts components (index own there)
    generated_at := by rw [generatedAt]; rfl
    version := by rw [version]; rfl }

theorem HoldsTexts.readable (texts : m.HoldsTexts) {digits : Nat}
    (short : Binary64.decimalLength m.components.size ≤ digits) :
    Readable digits 4 m.toDocument := by
  have components : Readable digits 3
      (.record (m.components.entries.map fun e => (e.1, e.2.toValue))) := by
    refine .obj ?_ ?_
    · rw [List.map_map]
      exact m.components.keys_nodup
    · intro f member
      obtain ⟨e, here, rfl⟩ := List.mem_map.mp member
      exact (texts.components e here).readable
  have graph : Readable digits 3 (.record [("roots", .arr m.roots), ("leaves", .arr m.leaves)]) := by
    refine .obj (by simp) ?_
    simp only [List.forall_mem_cons]
    exact ⟨readable_of_texts texts.roots, readable_of_texts texts.leaves, by simp⟩
  have version : Readable digits 3 m.version := readable_of_string texts.version
  have generatedAt : Readable digits 3 m.generatedAt := readable_of_string texts.generated_at
  have total : Readable digits 3 (.int m.components.size) := .int short
  rw [toDocument]
  cases there : m.hashIndex with
  | none =>
    refine .obj (by simp) ?_
    simp only [List.append_nil, List.forall_mem_cons]
    exact ⟨version, generatedAt, total, components, graph, by simp⟩
  | some index =>
    refine .obj (by simp) ?_
    simp only [List.cons_append, List.nil_append, List.forall_mem_cons]
    exact ⟨version, generatedAt, total, components, graph, (texts.hash_index index there).readable,
      by simp⟩

end Manifest

end ContractGraph
