import ContractGraph.Proofs.Resolver.Keys

/-!
# Resolvers of reordered keys

Where no two keys have one normal form, the order of the keys decides no more than which of several
candidates comes first: every name has the same tier and the same candidates in another order. A
name with one candidate means the same.
-/

namespace ContractGraph

set_option autoImplicit false

/-- The same item is found in any order when only one can be found. -/
theorem find_of_perm {α : Type} {p : α → Bool} {items others : List α} (perm : items.Perm others)
    (only : ∀ a ∈ items, ∀ b ∈ items, p a = true → p b = true → a = b) :
    items.find? p = others.find? p := by
  rcases here : items.find? p with _ | a
  · apply Eq.symm
    apply List.find?_eq_none.mpr
    intro b member
    exact List.find?_eq_none.mp here b (perm.mem_iff.mpr member)
  · have found := List.find?_some here
    have listed := List.mem_of_find?_eq_some here
    have some : (others.find? p).isSome = true :=
      List.find?_isSome.mpr ⟨a, perm.mem_iff.mp listed, found⟩
    obtain ⟨b, there⟩ := Option.isSome_iff_exists.mp some
    have other := perm.mem_iff.mpr (List.mem_of_find?_eq_some there)
    rw [there, only a listed b other found (List.find?_some there)]

theorem rel_of_or {α : Type} {R : α → α → Prop} {a a' b b' : Option α} (first : Option.Rel R a a')
    (second : Option.Rel R b b') : Option.Rel R (a.or b) (a'.or b') := by
  cases first with
  | some related => exact .some related
  | none => exact second

theorem rel_of_eq {α : Type} {R : α → α → Prop} (reflexive : ∀ a, R a a) (a : Option α) :
    Option.Rel R a a := by
  cases a with
  | none => exact .none
  | some a => exact .some (reflexive a)

namespace Match

/-- Matches of one tier whose candidates are the same in some order. -/
def Reordered (a b : Match) : Prop := a.tier = b.tier ∧ a.candidates.Perm b.candidates

theorem Reordered.refl (a : Match) : a.Reordered a := ⟨rfl, .refl a.candidates⟩

theorem Reordered.ambiguous {a b : Match} (related : a.Reordered b) :
    a.ambiguous = b.ambiguous := by
  rw [Match.ambiguous, Match.ambiguous, related.2.length_eq]

/-- A match with one candidate has no other order. -/
theorem Reordered.eq {a b : Match} (related : a.Reordered b)
    (first : a.candidates.head? = some a.key) (second : b.candidates.head? = some b.key)
    (clear : a.ambiguous = false) : a = b := by
  rcases a with ⟨key, tier, candidates⟩
  rcases b with ⟨other, level, more⟩
  obtain ⟨rfl, perm⟩ := related
  have alone : candidates = [key] := by
    obtain ⟨rest, shape⟩ : ∃ rest, candidates = key :: rest := List.head?_eq_some_iff.mp first
    have short : ¬1 < candidates.length := of_decide_eq_false clear
    rw [shape, List.length_cons] at short
    rw [shape, List.length_eq_zero_iff.mp (show rest.length = 0 by omega)]
  subst alone
  have same : more = [key] := List.perm_singleton.mp perm.symm
  subst same
  have equal : key = other := Option.some.inj second
  rw [equal]

theorem of_candidates_reordered (tier : Tier) {keys others : List String} (perm : keys.Perm others) :
    Option.Rel Reordered (ofCandidates tier keys) (ofCandidates tier others) := by
  cases keys with
  | nil =>
    rw [perm.symm.eq_nil]
    exact .none
  | cons key rest =>
    cases others with
    | nil => exact absurd perm.eq_nil (List.cons_ne_nil key rest)
    | cons other more => exact .some ⟨rfl, perm⟩

end Match

namespace Resolver

variable {keys others : List String}

theorem first_key_reordered (perm : keys.Perm others)
    (apart : ∀ a ∈ keys, ∀ b ∈ keys, EntryId.normalize a = EntryId.normalize b → a = b)
    (id : String) : Scan.firstKey (keys.map fun key => (key, key)) id =
      Scan.firstKey (others.map fun key => (key, key)) id := by
  rw [first_key_of_keys, first_key_of_keys]
  apply find_of_perm perm
  intro a first b second here there
  have same : EntryId.normalize a = EntryId.normalize b :=
    (eq_of_beq here).trans (eq_of_beq there).symm
  exact apart a first b second same

theorem lookup_reordered (perm : keys.Perm others)
    (apart : ∀ a ∈ keys, ∀ b ∈ keys, EntryId.normalize a = EntryId.normalize b → a = b)
    (id : String) : (ofKeys keys).lookup id = (ofKeys others).lookup id := by
  by_cases empty : id = ""
  · subst empty
    rfl
  · rw [ofKeys, ofKeys, lookup_of_rows _ empty, lookup_of_rows _ empty]
    exact first_key_reordered perm apart id

/-- A name has no match in both orders, or matches of one tier with the same candidates. -/
theorem find_reordered (perm : keys.Perm others)
    (apart : ∀ a ∈ keys, ∀ b ∈ keys, EntryId.normalize a = EntryId.normalize b → a = b)
    (name : String) (referrer : Option String) :
    Option.Rel Match.Reordered ((ofKeys keys).find? name referrer)
      ((ofKeys others).find? name referrer) := by
  have first : Scan.firstKey (keys.map fun key => (key, key)) =
      Scan.firstKey (others.map fun key => (key, key)) :=
    funext (first_key_reordered perm apart)
  have rows : ((keys.map fun key => (key, key)).map (·.1)).Perm
      ((others.map fun key => (key, key)).map (·.1)) := (perm.map _).map _
  have candidates : ∀ (tier : Tier) (p : String → Bool), Option.Rel Match.Reordered
      (Match.ofCandidates tier (((keys.map fun key => (key, key)).map (·.1)).filter p))
      (Match.ofCandidates tier (((others.map fun key => (key, key)).map (·.1)).filter p)) :=
    fun tier p => Match.of_candidates_reordered tier (rows.filter p)
  rw [ofKeys, ofKeys, find_of_rows, find_of_rows, Scan.find?, Scan.find?]
  by_cases empty : name = ""
  · rw [if_pos empty, if_pos empty]
    exact .none
  · rw [if_neg empty, if_neg empty, first]
    -- The tiers that find one key find the same one, the others list the same keys.
    apply rel_of_or (rel_of_eq Match.Reordered.refl _)
    apply rel_of_or (rel_of_eq Match.Reordered.refl _)
    apply rel_of_or (candidates .suffix _)
    apply rel_of_or (candidates .suffix _)
    exact candidates .basename _

/-- A name with one candidate means the same in both orders. -/
theorem find_of_unambiguous (perm : keys.Perm others)
    (apart : ∀ a ∈ keys, ∀ b ∈ keys, EntryId.normalize a = EntryId.normalize b → a = b)
    {name : String} {referrer : Option String}
    (clear : ∀ found, (ofKeys keys).find? name referrer = some found → found.ambiguous = false) :
    (ofKeys keys).find? name referrer = (ofKeys others).find? name referrer := by
  have related := find_reordered perm apart name referrer
  have leads : ∀ (keys : List String) found, (ofKeys keys).find? name referrer = some found →
      found.candidates.head? = some found.key := by
    intro keys found here
    rw [ofKeys, find_of_rows] at here
    exact Scan.key_is_first_candidate here
  rcases here : (ofKeys keys).find? name referrer with _ | a
  · rcases there : (ofKeys others).find? name referrer with _ | b
    · rfl
    · rw [here, there] at related
      cases related
  · rcases there : (ofKeys others).find? name referrer with _ | b
    · rw [here, there] at related
      cases related
    · rw [here, there] at related
      cases related with
      | some same => rw [same.eq (leads keys a here) (leads others b there) (clear a here)]

end Resolver

end ContractGraph
