import ContractGraph.Proofs.Manifest.Mirror
import ContractGraph.Proofs.Manifest.Warnings
import ContractGraph.Proofs.Resolver.Reordered
import Mathlib.Data.List.Nodup

/-!
# Manifests of reordered contracts

Where all entry ids have different normal forms, two orders of the same contracts give components
with the same names under the same keys. When no reference is ambiguous, every name of a component
means the same in both, so that the graphs are one.
-/

namespace ContractGraph.Manifest

set_option autoImplicit false

variable {contracts others : List Contract} {m m' : Manifest}

theorem add_contracts_keys {hasher : Hasher} {t t' : Table String Component}
    (added : (contracts.foldlM (addContract hasher) t).outcome = .ok t') (key : String) :
    key ∈ t'.keys ↔ key ∈ t.keys ∨ ∃ c ∈ contracts, c.entryId = key := by
  induction contracts generalizing t with
  | nil =>
    cases added
    simp
  | cons c rest ih =>
    rw [List.foldlM_cons] at added
    obtain ⟨middle, here, added⟩ := Logged.ok_of_bind added
    obtain ⟨component, -, rfl⟩ := add_contract_parts here
    rw [ih added, Table.mem_keys_insert_iff]
    simp [or_assoc]

/-- The keys are the entry ids of the contracts. -/
theorem build_keys {now : String} {hasher : Hasher} {withIndex : Bool}
    (done : (build now hasher withIndex contracts).outcome = .ok m) (key : String) :
    key ∈ m.components.keys ↔ ∃ c ∈ contracts, c.entryId = key := by
  obtain ⟨t, added, linked⟩ := build_parts done
  obtain ⟨keys, -⟩ :=
    of_components_linked (fun e member => (add_contracts_made added e member).2) linked
  rw [keys, add_contracts_keys added]
  simp [Table.keys]

/-- Two manifests of the same contracts in two orders. -/
structure Reordered (contracts others : List Contract) (m m' : Manifest) : Prop where
  first : Built contracts m
  second : Built others m'
  keys : m.components.keys.Perm m'.components.keys
  apart : ∀ a ∈ m.components.keys, ∀ b ∈ m.components.keys,
    EntryId.normalize a = EntryId.normalize b → a = b
  dependencies : ∀ key, (m.components.get? key).map (·.dependencies) =
    (m'.components.get? key).map (·.dependencies)

theorem build_reordered {now : String} {hasher : Hasher} {withIndex : Bool}
    (built : (build now hasher withIndex contracts).outcome = .ok m)
    (rebuilt : (build now hasher withIndex others).outcome = .ok m')
    (perm : contracts.Perm others)
    (distinct : (contracts.map fun c => EntryId.normalize c.entryId).Nodup) :
    Reordered contracts others m m' := by
  have one : ∀ c ∈ contracts, ∀ d ∈ contracts,
      EntryId.normalize c.entryId = EntryId.normalize d.entryId → c = d := by
    intro c here d there
    exact List.inj_on_of_nodup_map distinct here there
  have first := build_built built
  have second := build_built rebuilt
  have keys : m.components.keys.Perm m'.components.keys := by
    apply (List.perm_ext_iff_of_nodup m.components.keys_nodup m'.components.keys_nodup).mpr
    intro key
    rw [build_keys built, build_keys rebuilt]
    simp only [perm.mem_iff]
  refine ⟨first, second, keys, ?_, ?_⟩
  · intro a listed b given same
    obtain ⟨c, here, rfl⟩ := first.key_of_contract listed
    obtain ⟨d, there, rfl⟩ := first.key_of_contract given
    rw [one c here d there same]
  · intro key
    rcases here : m.components.get? key with _ | c
    · rcases there : m'.components.get? key with _ | d
      · rfl
      · have listed := keys.mem_iff.mpr ((m'.components.mem_keys_iff key).mpr ⟨d, there⟩)
        obtain ⟨c, found⟩ := (m.components.mem_keys_iff key).mp listed
        rw [here] at found
        cases found
    · have listed := keys.mem_iff.mp ((m.components.mem_keys_iff key).mpr ⟨c, here⟩)
      obtain ⟨d, there⟩ := (m'.components.mem_keys_iff key).mp listed
      obtain ⟨k, member, id, texts⟩ := (first.made_of_get here).contract
      obtain ⟨l, given, same, more⟩ := (second.made_of_get there).contract
      have equal : k = l := one k member l (perm.mem_iff.mpr given) (by rw [id, same])
      rw [there, Option.map_some, Option.map_some, texts, more, equal]

namespace Reordered

theorem symm (o : Reordered contracts others m m') : Reordered others contracts m' m where
  first := o.second
  second := o.first
  keys := o.keys.symm
  apart a listed b given := o.apart a (o.keys.mem_iff.mpr listed) b (o.keys.mem_iff.mpr given)
  dependencies key := (o.dependencies key).symm

theorem get (o : Reordered contracts others m m') {key : String} {c : Component}
    (here : m.components.get? key = some c) :
    ∃ d, m'.components.get? key = some d ∧ d.dependencies = c.dependencies := by
  have same := o.dependencies key
  rw [here] at same
  exact Option.map_eq_some_iff.mp same.symm

theorem leaves_eq (o : Reordered contracts others m m') : m.leaves = m'.leaves := by
  have passes : ∀ {contracts others : List Contract} {m m' : Manifest},
      Reordered contracts others m m' → ∀ {key : String},
        (∃ c, m.components.get? key = some c ∧ c.dependencies.isEmpty = true) →
          ∃ c, m'.components.get? key = some c ∧ c.dependencies.isEmpty = true := by
    intro contracts others m m' o key given
    rcases given with ⟨c, here, none⟩
    obtain ⟨d, there, equal⟩ := o.get here
    exact ⟨d, there, equal ▸ none⟩
  rw [o.first.leaves, o.second.leaves]
  apply keys_where_congr
  intro key
  exact ⟨passes o, passes o.symm⟩

theorem find_reordered (o : Reordered contracts others m m') (name : String)
    (referrer : Option String) :
    Option.Rel Match.Reordered ((Resolver.ofKeys m.components.keys).find? name referrer)
      ((Resolver.ofKeys m'.components.keys).find? name referrer) :=
  Resolver.find_reordered o.keys o.apart name referrer

/-- No reference becomes ambiguous in another order. -/
theorem clear (o : Reordered contracts others m m') (clear : m.Clear) : m'.Clear := by
  intro key d there name listed found means
  obtain ⟨c, here, equal⟩ := o.symm.get there
  have own : name ∈ c.dependencyNames := by
    rw [Component.dependencyNames, equal]
    exact listed
  have related := o.find_reordered name (some key)
  rw [means] at related
  rcases before : (Resolver.ofKeys m.components.keys).find? name (some key) with _ | a
  · rw [before] at related
    cases related
  · rw [before] at related
    cases related with
    | some same => rw [← same.ambiguous, clear key c here name own a before]

/-- The names of a component mean the same in both orders. -/
theorem find_own (o : Reordered contracts others m m') (clear : m.Clear) {key : String}
    {c : Component} (here : m.components.get? key = some c) {name : String}
    (listed : name ∈ c.dependencyNames) :
    (Resolver.ofKeys m.components.keys).find? name (some key) =
      (Resolver.ofKeys m'.components.keys).find? name (some key) :=
  Resolver.find_of_unambiguous o.keys o.apart (clear key c here name listed)

theorem used_by_of (o : Reordered contracts others m m') (clear : m.Clear) {user target : String}
    (used : m.UsedBy user target) : m'.UsedBy user target := by
  obtain ⟨c, here, name, listed, means⟩ := o.first.used_by_iff.mp used
  obtain ⟨d, there, equal⟩ := o.get here
  have own := ((o.first.made_of_get here).mem_names_iff name).mpr listed
  refine o.second.used_by_iff.mpr ⟨d, there, name, equal ▸ listed, ?_⟩
  rw [Resolver.resolve, ← o.find_own clear here own]
  exact means

theorem used_by_iff (o : Reordered contracts others m m') (clear : m.Clear)
    {user target : String} : m.UsedBy user target ↔ m'.UsedBy user target :=
  ⟨o.used_by_of clear, o.symm.used_by_of (o.clear clear)⟩

theorem users_perm (o : Reordered contracts others m m') (clear : m.Clear) {key : String}
    {c d : Component} (here : m.components.get? key = some c)
    (there : m'.components.get? key = some d) : c.usedBy.Perm d.usedBy := by
  obtain ⟨users, texts, distinct, used⟩ := o.first.users_listed here
  obtain ⟨more, others, apart, noted⟩ := o.second.users_listed there
  have same : users.Perm more := by
    apply (List.perm_ext_iff_of_nodup distinct apart).mpr
    intro user
    rw [used, noted, o.used_by_iff clear]
  rw [texts, others]
  exact same.map _

theorem roots_eq (o : Reordered contracts others m m') (clear : m.Clear) : m.roots = m'.roots := by
  have passes : ∀ {contracts others : List Contract} {m m' : Manifest},
      Reordered contracts others m m' → m.Clear → ∀ {key : String},
        (∃ c, m.components.get? key = some c ∧ c.usedBy.isEmpty = true) →
          ∃ c, m'.components.get? key = some c ∧ c.usedBy.isEmpty = true := by
    intro contracts others m m' o clear key given
    rcases given with ⟨c, here, none⟩
    obtain ⟨d, there, -⟩ := o.get here
    have perm := o.users_perm clear here there
    rw [List.isEmpty_iff] at none
    rw [none] at perm
    exact ⟨d, there, List.isEmpty_iff.mpr perm.symm.eq_nil⟩
  rw [o.first.roots, o.second.roots]
  apply keys_where_congr
  intro key
  exact ⟨passes o clear, passes o.symm (o.clear clear)⟩

end Reordered

end ContractGraph.Manifest
