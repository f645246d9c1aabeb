import ContractGraph.Manifest.Similar
import ContractGraph.Proofs.Json.Same
import ContractGraph.Proofs.Manifest.Mirror
import ContractGraph.Proofs.Manifest.Superseded
import ContractGraph.Proofs.Manifest.Texts

/-!
# Components that share a hash

The index keeps the keys of the components under each hash of one kind. Asked with the hash of a
component it gives the components that have the same one, and asked with the empty text, which a
component without a hash asks for, it gives nothing: no empty hash is indexed. So similarity is what
it is between every two components, whether the index is stored or made for the question.
-/

namespace ContractGraph

set_option autoImplicit false

/-- Every hash can be a key, as every text can. -/
structure Hasher.GivesKeys (hasher : Hasher) : Prop where
  structure_hash : ∀ c v, hasher.structureHash c = .ok v → v.toKey?.isSome
  signature_hash : ∀ i v, hasher.signatureHash i = .ok v → v.toKey?.isSome

theorem Hasher.GivesTexts.gives_keys {hasher : Hasher} (texts : hasher.GivesTexts) :
    hasher.GivesKeys := by
  have hashable : ∀ v : Json, v.isString = true → v.toKey?.isSome := by
    intro v text
    cases v with
    | str s => rfl
    | _ => cases text
  constructor
  · intro c v given
    exact hashable v (texts.structure_hash c v given)
  · intro i v given
    exact hashable v (texts.signature_hash i v given)

namespace Json

/-- The key that a value is as well. -/
def keyOf (v : Json) : Key := v.toKey?.getD .null

section Hashable

variable {v w : Json}

theorem as_key_of_hashable (hashable : v.toKey?.isSome) : v.asKey = .ok v.keyOf := by
  obtain ⟨k, there⟩ := Option.isSome_iff_exists.mp hashable
  rw [asKey, keyOf, there]
  rfl

theorem of_key_of (hashable : v.toKey?.isSome) : ofKey v.keyOf = v := by
  cases v <;> first | rfl | cases hashable

theorem same_of_hashable (first : v.toKey?.isSome) (second : w.toKey?.isSome) :
    v.same w = (v.keyOf == w.keyOf) := by
  cases v with
  | arr _ => cases first
  | obj _ => cases first
  | _ => cases w <;> first | rfl | cases second

/-- The first value is a hash, and the second one is the same. -/
def SharesHash (v w : Json) : Prop := v.truthy = true ∧ v.same w = true

theorem shares_hash_symm (first : v.toKey?.isSome) (second : w.toKey?.isSome)
    (shares : SharesHash v w) : SharesHash w v := by
  rcases shares with ⟨there, same⟩
  rw [same_of_hashable first second] at same
  refine ⟨?_, ?_⟩
  · rw [← of_key_of second, ← Key.truthy_of_same same, of_key_of first]
    exact there
  · rw [same_of_hashable second first]
    exact BEq.symm same

/-- Under the hash of a component stand those that share it, and under the empty text none. -/
theorem under_iff_shares (first : v.toKey?.isSome) (second : w.toKey?.isSome) :
    v.truthy = true ∧ (v.keyOf == (w.orElse (.str "")).keyOf) = true ↔ SharesHash v w := by
  by_cases there : w.truthy = true
  · rw [orElse, if_pos there, SharesHash, same_of_hashable first second]
  · rw [orElse, if_neg there]
    constructor
    · intro given
      have empty : v.keyOf = .str "" := (Key.same_str_iff _ _).mp given.2
      have nothing := given.1
      rw [← of_key_of first, empty] at nothing
      cases nothing
    · intro shares
      exact absurd (shares_hash_symm first second shares).1 there

end Hashable

end Json

open Json (SharesHash keyOf)

theorem Component.hashable_of_get {components : Table String Component}
    {hashOf : Component → Json} (hashable : ∀ e ∈ components.entries, (hashOf e.2).toKey?.isSome)
    {key : String} {c : Component} (found : components.get? key = some c) :
    (hashOf c).toKey?.isSome :=
  hashable (key, c) ((components.get_eq_some_iff key c).mp found)

namespace HashIndex

open Component (hashable_of_get)

/-- An index of one kind of hash: every bucket holds the components with its hash in their order,
and every component that has a hash is in one bucket. -/
structure Indexes (components : Table String Component) (hashOf : Component → Json)
    (t : Table Key (List Json)) : Prop where
  ordered : ∀ e ∈ t.entries, ∃ keys : List String,
    e.2 = keys.map .str ∧ keys.Sublist components.keys
  shared : ∀ e ∈ t.entries, ∀ key, .str key ∈ e.2 ↔
    ∃ c, components.get? key = some c ∧ SharesHash (hashOf c) (.ofKey e.1)
  once : ∀ key c, components.get? key = some c → (hashOf c).truthy = true →
    ∃! e, e ∈ t.entries ∧ .str key ∈ e.2

/-- Puts the key of a component under its hash, if it has one. -/
def putUnder (hashOf : Component → Json) (t : Table Key (List Json)) (e : String × Component) :
    Table Key (List Json) :=
  if (hashOf e.2).truthy then t.append (hashOf e.2).keyOf (.str e.1) else t

/-- The keys of the components that have a hash, under their hashes. -/
def buckets (hashOf : Component → Json) (entries : List (String × Component)) :
    Table Key (List Json) :=
  entries.foldl (putUnder hashOf) .empty

theorem add_hash_of_hashable (hashOf : Component → Json) {e : String × Component}
    (hashable : (hashOf e.2).toKey?.isSome) (t : Table Key (List Json)) :
    addHash t (hashOf e.2) e.1 = .ok (putUnder hashOf t e) := by
  rw [addHash, putUnder, Json.as_key_of_hashable hashable]
  split <;> rfl

/-- The buckets of one kind do not depend on those of the other. -/
theorem fold_put_under (entries : List (String × Component)) (index : HashIndex) :
    entries.foldl (fun index e => {
      structures := putUnder (·.structureHash) index.structures e
      signatures := putUnder (·.signatureHash) index.signatures e }) index = {
        structures := entries.foldl (putUnder (·.structureHash)) index.structures
        signatures := entries.foldl (putUnder (·.signatureHash)) index.signatures : HashIndex } := by
  induction entries generalizing index with
  | nil => rfl
  | cons e rest ih => exact ih _

/-- The index of components whose hashes can be keys has the buckets of both kinds. -/
theorem of_components_buckets {components : Table String Component}
    (structures : ∀ e ∈ components.entries, e.2.structureHash.toKey?.isSome)
    (signatures : ∀ e ∈ components.entries, e.2.signatureHash.toKey?.isSome) :
    ofComponents components = .ok {
      structures := buckets (·.structureHash) components.entries
      signatures := buckets (·.signatureHash) components.entries } := by
  have step : ∀ e ∈ components.entries, ∀ index, add index e = .ok {
      structures := putUnder (·.structureHash) index.structures e
      signatures := putUnder (·.signatureHash) index.signatures e } := by
    intro e member index
    rw [add, add_hash_of_hashable (·.structureHash) (structures e member),
      add_hash_of_hashable (·.signatureHash) (signatures e member)]
    rfl
  rw [ofComponents, fold_each_ok step, fold_put_under]
  rfl

section Buckets

variable (hashOf : Component → Json) (components : Table String Component)

/-- The keys of the components that have a hash, in their order. -/
def keysWith (k : Key) : List String :=
  (components.filter fun _ c => (hashOf c).truthy && (hashOf c).keyOf == k).keys

theorem keys_with_sublist (k : Key) : (keysWith hashOf components k).Sublist components.keys :=
  List.filter_sublist.map _

theorem mem_keys_with_iff {k : Key} {key : String} :
    key ∈ keysWith hashOf components k ↔ ∃ c, components.get? key = some c ∧
      (hashOf c).truthy = true ∧ ((hashOf c).keyOf == k) = true := by
  rw [keysWith, Table.mem_keys_filter_iff]
  simp only [Bool.and_eq_true]

theorem bucket_eq (k : Key) :
    ((buckets hashOf components.entries).get? k).getD [] =
      (keysWith hashOf components k).map .str := by
  have filed : buckets hashOf components.entries =
      (components.entries.filter fun e => (hashOf e.2).truthy).foldl
        (fun t e => t.append (hashOf e.2).keyOf (.str e.1)) .empty := List.foldl_filter.symm
  rw [filed, Table.get_fold_append (fun e : String × Component => (hashOf e.2).keyOf)
    (fun e => Json.str e.1), Table.get_empty, List.filter_filter]
  simp [keysWith, Table.keys, Table.filter, Bool.and_comm, Function.comp_def]

theorem buckets_index (hashable : ∀ e ∈ components.entries, (hashOf e.2).toKey?.isSome) :
    Indexes components hashOf (buckets hashOf components.entries) := by
  have whole : ∀ e ∈ (buckets hashOf components.entries).entries,
      e.2 = (keysWith hashOf components e.1).map .str := by
    intro e member
    rw [← bucket_eq, Table.get_of_mem member]
    rfl
  have inside : ∀ e ∈ (buckets hashOf components.entries).entries, ∀ key, .str key ∈ e.2 ↔
      ∃ c, components.get? key = some c ∧
        (hashOf c).truthy = true ∧ ((hashOf c).keyOf == e.1) = true := by
    intro e member key
    rw [whole e member, ← mem_keys_with_iff]
    simp
  constructor
  case ordered =>
    intro e member
    exact ⟨_, whole e member, keys_with_sublist hashOf components e.1⟩
  case shared =>
    intro e member key
    have scalar : (Json.ofKey e.1).toKey? = some e.1 := by cases e.1 <;> rfl
    rw [inside e member]
    apply exists_congr
    intro c
    apply and_congr_right
    intro found
    have hash := hashable_of_get hashable found
    have itself : (Json.ofKey e.1).keyOf = e.1 := by rw [keyOf, scalar]; rfl
    rw [SharesHash, Json.same_of_hashable hash (Option.isSome_of_eq_some scalar), itself]
  case once =>
    intro key c found there
    have listed : key ∈ keysWith hashOf components (hashOf c).keyOf :=
      (mem_keys_with_iff hashOf components).mpr ⟨c, found, there, BEq.rfl⟩
    rcases filed : (buckets hashOf components.entries).get? (hashOf c).keyOf with _ | items
    · have none := bucket_eq hashOf components (hashOf c).keyOf
      rw [filed, Option.getD_none, eq_comm, List.map_eq_nil_iff] at none
      rw [none] at listed
      cases listed
    · obtain ⟨e, member, same, rfl⟩ := Table.entry_of_get filed
      refine ⟨e, ⟨member, ?_⟩, ?_⟩
      · exact (inside e member key).mpr ⟨c, found, there, BEq.symm same⟩
      · rintro d ⟨other, given⟩
        obtain ⟨c', again, -, equal⟩ := (inside d other key).mp given
        rw [found] at again
        cases again
        exact Table.entry_unique other member (BEq.trans (BEq.symm equal) (BEq.symm same))

end Buckets

end HashIndex

open HashIndex (Indexes buckets keysWith)

namespace Manifest

open Component (hashable_of_get)

variable {now : String} {hasher : Hasher} {withIndex : Bool} {contracts : List Contract}
  {m : Manifest}

/-- The second key stands for another component, with the hash of the one under the first key. -/
def Shares (m : Manifest) (hashOf : Component → Json) (key other : String) : Prop :=
  other ≠ key ∧ ∃ c d, m.components.get? key = some c ∧ m.components.get? other = some d ∧
    SharesHash (hashOf d) (hashOf c)

/-- All hashes can be keys, and an index that is stored is the one that would be made. -/
structure Hashed (m : Manifest) : Prop where
  structures : ∀ e ∈ m.components.entries, e.2.structureHash.toKey?.isSome
  signatures : ∀ e ∈ m.components.entries, e.2.signatureHash.toKey?.isSome
  stored : ∀ index, m.hashIndex = some index → HashIndex.ofComponents m.components = .ok index

theorem build_hashed (keys : hasher.GivesKeys)
    (built : (build now hasher withIndex contracts).outcome = .ok m) : m.Hashed := by
  obtain ⟨t, -, done⟩ := build_parts built
  constructor
  case structures =>
    intro e member
    obtain ⟨c, holds⟩ := exists_contract_of_component built e member
    exact keys.structure_hash _ _ holds.structure_hash
  case signatures =>
    intro e member
    obtain ⟨c, holds⟩ := exists_contract_of_component built e member
    exact keys.signature_hash _ _ holds.signature_hash
  case stored => exact (of_components_header done).2.2

theorem Hashed.index_made (hashed : m.Hashed) : m.indexOrNew = .ok {
    structures := buckets (·.structureHash) m.components.entries
    signatures := buckets (·.signatureHash) m.components.entries } := by
  rw [← HashIndex.of_components_buckets hashed.structures hashed.signatures, indexOrNew]
  split
  · next index there => exact (hashed.stored index there).symm
  · rfl

section Question

variable (hashOf : Component → Json)

theorem keys_under_eq (components : Table String Component) {hash : Json}
    (hashable : hash.toKey?.isSome) :
    keysUnder (buckets hashOf components.entries) hash =
      .ok ((keysWith hashOf components (hash.orElse (.str "")).keyOf).map .str) := by
  have possible : (hash.orElse (.str "")).toKey?.isSome := by
    rw [Json.orElse]
    split
    · exact hashable
    · rfl
  rw [keysUnder, Json.as_key_of_hashable possible, ← HashIndex.bucket_eq]
  rfl

theorem others_sorted_eq (key : String) (keys : List String) :
    othersSorted key (keys.map .str) = .ok ((Text.sorted (keys.filter (· ≠ key))).map .str) := by
  have others : (keys.map Json.str).filter (fun k => !k.same (.str key)) =
      (keys.filter (· ≠ key)).map .str := by
    rw [List.filter_map]
    congr 1
    apply List.filter_congr
    intro other _
    by_cases same : other = key <;> simp [same]
  rw [othersSorted, others, Json.sort_texts]

/-- The keys under the hash of a component without its own, sorted. -/
def othersUnder (m : Manifest) (key : String) (c : Component) : List String :=
  Text.sorted ((keysWith hashOf m.components ((hashOf c).orElse (.str "")).keyOf).filter (· ≠ key))

theorem others_share {key : String} {c : Component}
    (hashable : ∀ e ∈ m.components.entries, (hashOf e.2).toKey?.isSome)
    (found : m.components.get? key = some c) :
    ListsKeys ((othersUnder hashOf m key c).map .str) (m.Shares hashOf key) := by
  have own := hashable_of_get hashable found
  have once := m.components.keys_nodup.sublist
    (HashIndex.keys_with_sublist hashOf m.components ((hashOf c).orElse (.str "")).keyOf)
  refine ⟨_, rfl, Text.sorted_ascending (once.filter _), ?_⟩
  intro other
  rw [othersUnder, Text.mem_sorted, List.mem_filter, HashIndex.mem_keys_with_iff,
    decide_eq_true_eq, and_comm, Shares, found]
  apply and_congr_right
  intro _
  constructor
  · intro given
    rcases given with ⟨d, there, under⟩
    have hash := hashable_of_get hashable there
    exact ⟨c, d, rfl, there, (Json.under_iff_shares hash own).mp under⟩
  · intro given
    rcases given with ⟨c', d, same, there, shares⟩
    cases same
    have hash := hashable_of_get hashable there
    exact ⟨d, there, (Json.under_iff_shares hash own).mpr shares⟩

end Question

/-- Both lists of similar keys are those that share a hash with the key. -/
structure ListsSimilar (m : Manifest) (key : String) (s : SimilarKeys) : Prop where
  structures : ListsKeys s.structures (m.Shares (·.structureHash) key)
  signatures : ListsKeys s.signatures (m.Shares (·.signatureHash) key)

theorem ListsSimilar.unique {key : String} {s t : SimilarKeys} (first : m.ListsSimilar key s)
    (second : m.ListsSimilar key t) : s = t := by
  rcases s with ⟨structures, signatures⟩
  rcases t with ⟨others, more⟩
  have equal : structures = others := first.structures.unique second.structures
  have same : signatures = more := first.signatures.unique second.signatures
  rw [equal, same]

theorem Hashed.similar (hashed : m.Hashed) (key : String) :
    ∃ s, m.similar key = .ok s ∧ m.ListsSimilar key s := by
  rcases found : m.components.get? key with _ | c
  · have none : ∀ hashOf, ListsKeys [] (m.Shares hashOf key) := by
      intro hashOf
      refine ⟨[], rfl, List.Pairwise.nil, ?_⟩
      simp [Shares, found]
    refine ⟨⟨[], []⟩, ?_, none _, none _⟩
    rw [Manifest.similar, found]
  · have structures := hashable_of_get hashed.structures found
    have signatures := hashable_of_get hashed.signatures found
    refine ⟨⟨(othersUnder (·.structureHash) m key c).map .str,
      (othersUnder (·.signatureHash) m key c).map .str⟩, ?_,
      others_share _ hashed.structures found, others_share _ hashed.signatures found⟩
    rw [Manifest.similar, found]
    simp only [hashed.index_made, bind, Except.bind,
      keys_under_eq (·.structureHash) m.components structures,
      keys_under_eq (·.signatureHash) m.components signatures, others_sorted_eq]
    rfl

theorem shares_comm {hashOf : Component → Json} {a b : String}
    (hashable : ∀ e ∈ m.components.entries, (hashOf e.2).toKey?.isSome) :
    m.Shares hashOf a b ↔ m.Shares hashOf b a := by
  have turned : ∀ {a b}, m.Shares hashOf a b → m.Shares hashOf b a := by
    intro a b shares
    rcases shares with ⟨apart, c, d, first, second, shares⟩
    have own := hashable_of_get hashable first
    have other := hashable_of_get hashable second
    exact ⟨apart.symm, d, c, second, first, Json.shares_hash_symm other own shares⟩
  exact ⟨turned, turned⟩

theorem of_components_other {t : Table String Component} {index : HashIndex} (other : Bool)
    (done : ofComponents now withIndex t = .ok m)
    (indexed : HashIndex.ofComponents m.components = .ok index) :
    ∃ m', ofComponents now other t = .ok m' ∧ m'.components = m.components := by
  refine ⟨{ m with hashIndex := if other then some index else none }, ?_, rfl⟩
  simp only [ofComponents] at done ⊢
  split at done
  all_goals
    obtain ⟨stored, -, made⟩ := ok_of_bind done
    cases made
    cases other
    · rfl
    · rw [if_pos rfl, indexed]
      rfl

/-- Where a manifest has an index it was asked for. -/
theorem of_components_indexed {t : Table String Component}
    (done : ofComponents now withIndex t = .ok m) : m.hashIndex.isSome = withIndex := by
  simp only [ofComponents] at done
  split at done
  · next asked =>
    obtain ⟨stored, indexed, made⟩ := ok_of_bind done
    obtain ⟨index, -, rfl⟩ := ok_of_map indexed
    cases made
    exact asked.symm
  · next asked =>
    obtain ⟨stored, indexed, made⟩ := ok_of_bind done
    cases indexed
    cases made
    exact (Bool.eq_false_iff.mpr asked).symm

/-- The similar keys of a key are, in both lists, exactly the others with the same hash, whether or
not the manifest was built with an index. So similarity is symmetric. A stored index has every
component that has a hash in one bucket of each kind. -/
theorem similar_keys_share_hash (keys : hasher.GivesKeys)
    (built : (build now hasher withIndex contracts).outcome = .ok m) :
    (∀ key, ∃ s, m.similar key = .ok s ∧ m.ListsSimilar key s) ∧
      (∀ other, ∃ m', (build now hasher other contracts).outcome = .ok m' ∧
        ∀ key, m'.similar key = m.similar key) ∧
      (∀ a b s t, m.similar a = .ok s → m.similar b = .ok t →
        (.str b ∈ s.structures ↔ .str a ∈ t.structures) ∧
          (.str b ∈ s.signatures ↔ .str a ∈ t.signatures)) ∧
      m.hashIndex.isSome = withIndex ∧
      ∀ index, m.hashIndex = some index →
        Indexes m.components (·.structureHash) index.structures ∧
          Indexes m.components (·.signatureHash) index.signatures := by
  have hashed := build_hashed keys built
  have indexed := HashIndex.of_components_buckets hashed.structures hashed.signatures
  obtain ⟨each, linked⟩ := build_ok_iff.mp built
  refine ⟨hashed.similar, ?_, ?_, of_components_indexed linked, ?_⟩
  · intro other
    obtain ⟨m', done, same⟩ := of_components_other other linked indexed
    have other_built := build_ok_iff.mpr ⟨each, done⟩
    refine ⟨m', other_built, ?_⟩
    intro key
    obtain ⟨s, answer, lists⟩ := hashed.similar key
    obtain ⟨t, reply, others⟩ := (build_hashed keys other_built).similar key
    have shares : ∀ hashOf, m'.Shares hashOf key = m.Shares hashOf key := by
      intro hashOf
      funext next
      rw [Shares, Shares, same]
    have here : m.ListsSimilar key t :=
      ⟨shares _ ▸ others.structures, shares _ ▸ others.signatures⟩
    rw [answer, reply, here.unique lists]
  · intro a b s t first second
    obtain ⟨own, answer, lists⟩ := hashed.similar a
    obtain ⟨others, reply, more⟩ := hashed.similar b
    rw [answer] at first
    rw [reply] at second
    cases first
    cases second
    rw [lists.structures.mem_iff, more.structures.mem_iff, lists.signatures.mem_iff,
      more.signatures.mem_iff]
    exact ⟨shares_comm hashed.structures, shares_comm hashed.signatures⟩
  · intro index stored
    have same := hashed.stored index stored
    rw [indexed] at same
    cases same
    exact ⟨HashIndex.buckets_index _ _ hashed.structures,
      HashIndex.buckets_index _ _ hashed.signatures⟩

/-- A hasher that knows a component by the first name in it, and no interface at all. -/
def byFirstName : Hasher where
  structureHash c := .ok (.str (c.components.headD ""))
  signatureHash _ := .ok (.str "")

theorem by_first_name_gives_texts : byFirstName.GivesTexts where
  structure_hash _ _ given := by cases given; rfl
  signature_hash _ _ given := by cases given; rfl

/-- Three rows that start alike, one that does not, and two components without a hash. -/
def lookAlikes : List Contract :=
  let contract (id : String) (names : List String) : Contract :=
    { entryId := id, composition := { components := names }, source := .null }
  [contract "c/Row.tsx" ["Cell"], contract "Card.tsx" [], contract "a/Row.tsx" ["Cell", "Mark"],
   contract "d/Row.tsx" ["Mark"], contract "Page.tsx" [], contract "b/Row.tsx" ["Cell"]]

theorem similar_keys_share_hash_of_look_alikes :
    ∃ m, (build "" byFirstName true lookAlikes).outcome = .ok m ∧
      (∀ key, ∃ s, m.similar key = .ok s ∧ m.ListsSimilar key s) ∧
      (∀ other, ∃ m', (build "" byFirstName other lookAlikes).outcome = .ok m' ∧
        ∀ key, m'.similar key = m.similar key) ∧
      (∀ a b s t, m.similar a = .ok s → m.similar b = .ok t →
        (.str b ∈ s.structures ↔ .str a ∈ t.structures) ∧
          (.str b ∈ s.signatures ↔ .str a ∈ t.signatures)) ∧
      m.hashIndex.isSome = true ∧
      ∀ index, m.hashIndex = some index →
        Indexes m.components (·.structureHash) index.structures ∧
          Indexes m.components (·.signatureHash) index.signatures := by
  obtain ⟨m, built⟩ : ∃ m, (build "" byFirstName true lookAlikes).outcome = .ok m := ⟨_, rfl⟩
  exact ⟨m, built, similar_keys_share_hash by_first_name_gives_texts.gives_keys built⟩

example : (build "" byFirstName true lookAlikes).outcome.map
    (fun m => m.hashIndex.map (·.structures.entries)) =
    .ok (some [(.str "Cell", [.str "c/Row.tsx", .str "a/Row.tsx", .str "b/Row.tsx"]),
      (.str "Mark", [.str "d/Row.tsx"])]) := by decide +kernel

end Manifest

end ContractGraph
