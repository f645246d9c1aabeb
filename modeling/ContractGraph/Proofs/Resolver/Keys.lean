import ContractGraph.Proofs.EntryId.NormalForm
import ContractGraph.Proofs.Resolver.Scan

/-!
# Keys that a resolver gives

When the entry id of every component is its key, a resolver is determined by the list of keys. What
it gives is one of them. An id is looked up as the first key with its normal form, which is then
looked up as itself; another key with that normal form is not.
-/

namespace ContractGraph.Resolver

set_option autoImplicit false

/-- The resolver of components whose entry ids are their keys. -/
def ofKeys (keys : List String) : Resolver := ofRows (keys.map fun key => (key, key))

variable {keys : List String}

theorem first_key_of_keys (keys : List String) (id : String) :
    Scan.firstKey (keys.map fun key => (key, key)) id =
      keys.find? fun key => EntryId.normalize key == EntryId.normalize id := by
  have twice : ∀ chosen : Option String,
      ((chosen.map fun key => (key, key)).or (chosen.map fun key => (key, key))).map (·.1) =
        chosen := by
    intro chosen
    cases chosen <;> rfl
  rw [Scan.firstKey, List.find?_map, List.find?_map]
  exact twice (keys.find? fun key => EntryId.normalize key == EntryId.normalize id)

theorem lookup_of_keys {id : String} (named : id ≠ "") :
    (ofKeys keys).lookup id =
      keys.find? fun key => EntryId.normalize key == EntryId.normalize id := by
  rw [ofKeys, lookup_of_rows _ named, first_key_of_keys]

theorem lookup_of_keys_eq_some {id key : String} (found : (ofKeys keys).lookup id = some key) :
    id ≠ "" ∧ key ∈ keys ∧ EntryId.normalize key = EntryId.normalize id := by
  have named : id ≠ "" := by
    intro empty
    subst empty
    cases found
  rw [lookup_of_keys named] at found
  have same := List.find?_some found
  exact ⟨named, List.mem_of_find?_eq_some found, by simpa using same⟩

theorem lookup_key {key : String} (named : key ≠ "") (member : key ∈ keys) :
    ∃ first, (ofKeys keys).lookup key = some first := by
  rw [lookup_of_keys named]
  apply Option.isSome_iff_exists.mp
  exact List.find?_isSome.mpr ⟨key, member, by simp⟩

/-- A key that was found is found again under itself. It is not empty, as no other text has an empty
normal form. -/
theorem lookup_found {id key : String} (found : (ofKeys keys).lookup id = some key) :
    (ofKeys keys).lookup key = some key := by
  obtain ⟨filled, -, same⟩ := lookup_of_keys_eq_some found
  have named : key ≠ "" := by
    intro empty
    apply EntryId.normalize_ne_empty filled
    rw [← same, empty]
    rfl
  rw [lookup_of_keys filled] at found
  rw [lookup_of_keys named, same]
  exact found

/-- Where no two keys have one normal form, every key is found under itself. -/
theorem lookup_key_of_apart
    (apart : ∀ a ∈ keys, ∀ b ∈ keys, EntryId.normalize a = EntryId.normalize b → a = b)
    {key : String} (named : key ≠ "") (member : key ∈ keys) : (ofKeys keys).lookup key = some key := by
  obtain ⟨first, found⟩ := lookup_key named member
  obtain ⟨-, listed, same⟩ := lookup_of_keys_eq_some found
  rw [found, apart first listed key member same]

/-- An id is looked up like its normal form. -/
theorem lookup_normalize (r : Resolver) (id : String) :
    r.lookup (EntryId.normalize id) = r.lookup id := by
  by_cases empty : id = ""
  · subst empty
    rfl
  · rw [lookup, lookup, if_neg empty, if_neg (EntryId.normalize_ne_empty empty),
      EntryId.normalize_normalize]

/-- What is looked up under an id is what the id means where no component uses it. -/
theorem resolve_of_lookup {r : Resolver} {id key : String} (found : r.lookup id = some key) :
    r.resolve id none = some key := by
  have named : id ≠ "" := by
    intro empty
    subst empty
    cases found
  rw [resolve, find?, if_neg named, findAnywhere, findExact, found]
  rfl

theorem resolve_of_keys_mem {name key : String} {referrer : Option String}
    (found : (ofKeys keys).resolve name referrer = some key) : key ∈ keys := by
  obtain ⟨chosen, here, rfl⟩ := Option.map_eq_some_iff.mp found
  rw [ofKeys, find_of_rows] at here
  simpa using Scan.key_mem_of_find here

/-- The candidates of a match are keys in the order of the keys. -/
theorem candidates_of_keys {name : String} {referrer : Option String} {found : Match}
    (means : (ofKeys keys).find? name referrer = some found) : found.candidates.Sublist keys := by
  have rows : (keys.map fun key => (key, key)).map (·.1) = keys := by
    rw [List.map_map]
    exact List.map_id keys
  rw [ofKeys, find_of_rows] at means
  rcases Scan.find_cases means with ⟨tier, id, key, here, rfl⟩ | ⟨tier, p, key, rest, kept, rfl⟩
  · have member := Scan.mem_of_first_key here
    rw [rows] at member
    exact List.singleton_sublist.mpr member
  · rw [rows] at kept
    rw [← kept]
    exact List.filter_sublist

theorem chosen_of_keys {name : String} {referrer : Option String} {found : Match}
    (means : (ofKeys keys).find? name referrer = some found) :
    found.candidates.head? = some found.key := by
  rw [ofKeys, find_of_rows] at means
  exact Scan.key_is_first_candidate means

end ContractGraph.Resolver
