import ContractGraph.Proofs.Manifest.Built
import ContractGraph.Proofs.Occurrences

/-!
# Ambiguous references

A manifest that was built warns of the references that have more than one candidate in it: once of
each component and name, in the order of the components and of their names. So it has no warnings
just when every name of a component has at most one candidate.
-/

namespace ContractGraph.Manifest

set_option autoImplicit false

variable {contracts : List Contract} {m : Manifest}

theorem mem_references_iff {r : Resolver} {components : Table String Component} {ref : Reference} :
    ref ∈ references r components ↔
      ∃ c, (ref.referrer, c) ∈ components.entries ∧ ref.name ∈ c.dependencyNames ∧
        r.find? ref.name (some ref.referrer) = some ref.target := by
  rw [references, List.mem_flatMap]
  constructor
  · intro given
    rcases given with ⟨⟨key, c⟩, member, here⟩
    obtain ⟨name, listed, made⟩ := List.mem_filterMap.mp here
    obtain ⟨target, means, rfl⟩ := Option.map_eq_some_iff.mp made
    exact ⟨c, member, listed, means⟩
  · intro given
    rcases given with ⟨c, member, listed, means⟩
    refine ⟨(ref.referrer, c), member, List.mem_filterMap.mpr ⟨ref.name, listed, ?_⟩⟩
    rw [means]
    rfl

theorem warnings_of_eq_nil_iff {refs : List Reference} :
    warningsOf refs = [] ↔ ∀ ref ∈ refs, ref.target.ambiguous = false := by
  rw [warningsOf, List.eq_nil_iff_forall_not_mem]
  simp only [List.mem_eraseDups, List.mem_map, List.mem_filter]
  constructor
  · intro none ref member
    apply Bool.eq_false_iff.mpr
    intro several
    exact none ref.toWarning ⟨ref, ⟨member, several⟩, rfl⟩
  · intro clear warning given
    rcases given with ⟨ref, ⟨member, several⟩, -⟩
    rw [clear ref member] at several
    cases several

/-- Linking leaves the names alone that the warnings are about. -/
theorem build_warnings {now : String} {hasher : Hasher} {withIndex : Bool}
    (done : (build now hasher withIndex contracts).outcome = .ok m) :
    m.warnings = warningsOf (references (.ofKeys m.components.keys) m.components) := by
  obtain ⟨t, added, linked⟩ := build_parts done
  obtain ⟨-, -, -, warnings⟩ := of_components_parts linked
  obtain ⟨keys, entries⟩ :=
    of_components_linked (fun e member => (add_contracts_made added e member).2) linked
  rw [warnings, keys, references, references, entries, List.flatMap_map]
  rfl

/-- No name of a component has more than one candidate. -/
def Clear (m : Manifest) : Prop :=
  ∀ key c, m.components.get? key = some c → ∀ name ∈ c.dependencyNames, ∀ found,
    (Resolver.ofKeys m.components.keys).find? name (some key) = some found →
      found.ambiguous = false

theorem build_clear_iff {now : String} {hasher : Hasher} {withIndex : Bool}
    (done : (build now hasher withIndex contracts).outcome = .ok m) :
    m.warnings = [] ↔ m.Clear := by
  rw [build_warnings done, warnings_of_eq_nil_iff]
  constructor
  · intro clear key c here name listed found means
    have member := (m.components.get_eq_some_iff key c).mp here
    exact clear ⟨key, name, found⟩ (mem_references_iff.mpr ⟨c, member, listed, means⟩)
  · intro clear ref member
    obtain ⟨c, listed, name, means⟩ := mem_references_iff.mp member
    have here := (m.components.get_eq_some_iff _ c).mpr listed
    exact clear ref.referrer c here ref.name name ref.target means

/-- Each component with each of its names: one component after the other, and each name at the place
where the component has it first. -/
def uses (m : Manifest) : List (String × String) :=
  m.components.entries.flatMap fun e => e.2.dependencyNames.eraseDups.map fun name => (e.1, name)

/-- The component and the name that a warning is about. -/
def useOf (w : AmbiguousReference) : String × String := (w.referrer, w.name)

/-- The warning of a use whose name has several candidates there. -/
def warningOf? (r : Resolver) (use : String × String) : Option AmbiguousReference :=
  ((r.find? use.2 (some use.1)).filter (·.ambiguous)).map fun found =>
    ⟨use.2, use.1, found.key, found.candidates⟩

theorem warning_of_eq_some_iff {r : Resolver} {use : String × String} {w : AmbiguousReference} :
    warningOf? r use = some w ↔ ∃ found, r.find? use.2 (some use.1) = some found ∧
      found.ambiguous = true ∧ ⟨use.2, use.1, found.key, found.candidates⟩ = w := by
  simp [warningOf?, Option.filter_eq_some_iff, and_assoc]

theorem use_of_warning {r : Resolver} {use : String × String} {w : AmbiguousReference}
    (warns : warningOf? r use = some w) : useOf w = use := by
  obtain ⟨found, -, -, rfl⟩ := warning_of_eq_some_iff.mp warns
  rfl

/-- A use has a warning when its name has several candidates there. -/
theorem uses_warned (r : Resolver) (uses : List (String × String)) :
    (uses.filterMap (warningOf? r)).map useOf = uses.filter fun use =>
      (r.find? use.2 (some use.1)).any fun found => 1 < found.candidates.length := by
  induction uses with
  | nil => rfl
  | cons use rest ih =>
    rw [List.filterMap_cons, List.filter_cons, ← ih]
    cases means : r.find? use.2 (some use.1) with
    | none => simp [warningOf?, means]
    | some found =>
      by_cases several : 1 < found.candidates.length
      · simp [warningOf?, means, Match.ambiguous, Option.filter, several, useOf]
      · simp [warningOf?, means, Match.ambiguous, Option.filter, several]

theorem mem_uses_iff {key name : String} :
    (key, name) ∈ m.uses ↔ ∃ c, m.components.get? key = some c ∧ name ∈ c.dependencyNames := by
  rw [uses, List.mem_flatMap]
  constructor
  · intro given
    rcases given with ⟨⟨k, c⟩, member, listed⟩
    obtain ⟨other, own, same⟩ := List.mem_map.mp listed
    cases same
    exact ⟨c, (m.components.get_eq_some_iff k c).mpr member, List.mem_eraseDups.mp own⟩
  · intro given
    rcases given with ⟨c, here, own⟩
    refine ⟨(key, c), (m.components.get_eq_some_iff key c).mp here, ?_⟩
    exact List.mem_map_of_mem (List.mem_eraseDups.mpr own)

/-- The names of all components, in their order and without the repetitions in one component. -/
theorem uses_eq (m : Manifest) :
    m.uses = (m.components.entries.flatMap fun e =>
      e.2.dependencyNames.map fun name => (e.1, name)).eraseDups := by
  have keys : m.components.entries.Pairwise fun e f => e.1 ≠ f.1 :=
    List.pairwise_map.mp m.components.keys_nodup
  have apart : m.components.entries.Pairwise fun e f =>
      ∀ use ∈ e.2.dependencyNames.map fun name => (e.1, name),
        use ∉ f.2.dependencyNames.map fun name => (f.1, name) := by
    refine keys.imp ?_
    intro e f different use first second
    obtain ⟨name, -, rfl⟩ := List.mem_map.mp first
    obtain ⟨other, -, same⟩ := List.mem_map.mp second
    exact different (congrArg Prod.fst same).symm
  rw [erase_dups_flat_map apart, uses]
  congr 1
  funext e
  rw [erase_dups_map]
  intro name other same
  exact congrArg Prod.snd same

/-- The references of a component that are ambiguous give a warning each. -/
theorem warnings_of_component (r : Resolver) (key : String) (names : List String) :
    ((referencesOf r key names).filter (·.target.ambiguous)).map Reference.toWarning =
      (names.map fun name => (key, name)).filterMap (warningOf? r) := by
  induction names with
  | nil => rfl
  | cons name rest ih =>
    rw [List.map_cons, List.filterMap_cons, ← ih, referencesOf, List.filterMap_cons]
    cases means : r.find? name (some key) with
    | none => simp [warningOf?, means, referencesOf]
    | some found =>
      cases several : found.ambiguous with
      | true => simp [warningOf?, means, several, referencesOf, Option.filter, Reference.toWarning]
      | false => simp [warningOf?, means, several, referencesOf, Option.filter]

theorem build_warnings_eq {now : String} {hasher : Hasher} {withIndex : Bool}
    (done : (build now hasher withIndex contracts).outcome = .ok m) :
    m.warnings = m.uses.filterMap (warningOf? (.ofKeys m.components.keys)) := by
  have one_use : ∀ use other w, warningOf? (.ofKeys m.components.keys) use = some w →
      warningOf? (.ofKeys m.components.keys) other = some w → use = other := by
    intro use other w first second
    exact (use_of_warning first).symm.trans (use_of_warning second)
  rw [build_warnings done, warningsOf, references, List.filter_flatMap, List.map_flatMap, uses_eq,
    ← erase_dups_filter_map one_use, List.filterMap_flatMap]
  simp only [warnings_of_component]

/-- What a warning says of its use. -/
structure WarnsOf (m : Manifest) (r : Resolver) (w : AmbiguousReference) : Prop where
  found : ∃ tier, r.find? w.name (some w.referrer) = some ⟨w.chosen, tier, w.candidates⟩
  several : 2 ≤ w.candidates.length
  distinct : w.candidates.Nodup
  ordered : w.candidates.Sublist m.components.keys
  first : w.candidates.head? = some w.chosen
  used : m.UsedBy w.referrer w.chosen

theorem Built.warns_of (b : Built contracts m) {use : String × String} {w : AmbiguousReference}
    (listed : use ∈ m.uses) (warns : warningOf? (.ofKeys m.components.keys) use = some w) :
    m.WarnsOf (.ofKeys m.components.keys) w := by
  obtain ⟨found, means, several, rfl⟩ := warning_of_eq_some_iff.mp warns
  obtain ⟨c, here, own⟩ := mem_uses_iff.mp listed
  have ordered := Resolver.candidates_of_keys means
  have resolved : (Resolver.ofKeys m.components.keys).resolve use.2 (some use.1) =
      some found.key := by
    rw [Resolver.resolve, means]
    rfl
  constructor
  case found => exact ⟨found.tier, means⟩
  case several => exact of_decide_eq_true several
  case distinct => exact m.components.keys_nodup.sublist ordered
  case ordered => exact ordered
  case first => exact Resolver.chosen_of_keys means
  case used =>
    exact b.used_by_iff.mpr ⟨c, here, use.2, ((b.made_of_get here).mem_names_iff use.2).mp own,
      resolved⟩

/-- A manifest warns exactly of the uses whose name has several candidates where it is used: once of
each, in the order of the components and of their names. A warning gives these candidates, which are
distinct keys in the order of the components, and the first of them has the edge. -/
theorem warnings_tell_ambiguous_uses {now : String} {hasher : Hasher} {withIndex : Bool}
    (built : (build now hasher withIndex contracts).outcome = .ok m) :
    ∃ r, m.resolver = .ok r ∧
      m.warnings.map useOf = m.uses.filter (fun use =>
        (r.find? use.2 (some use.1)).any fun found => 1 < found.candidates.length) ∧
      (m.warnings.map useOf).Nodup ∧
      (∀ key name, (key, name) ∈ m.warnings.map useOf ↔
        ∃ c found, m.components.get? key = some c ∧ .str name ∈ c.dependencies ∧
          r.find? name (some key) = some found ∧ 1 < found.candidates.length) ∧
      ∀ w ∈ m.warnings, m.WarnsOf r w := by
  have b := build_built built
  have told : m.warnings.map useOf = m.uses.filter (fun use =>
      ((Resolver.ofKeys m.components.keys).find? use.2 (some use.1)).any
        fun found => 1 < found.candidates.length) := by
    rw [build_warnings_eq built, uses_warned]
  refine ⟨_, b.resolver_eq, told, ?_, ?_, ?_⟩
  · rw [told, uses_eq]
    exact (each_once _).filter _
  · intro key name
    rw [told, List.mem_filter, mem_uses_iff]
    constructor
    · intro given
      rcases given with ⟨⟨c, here, own⟩, several⟩
      obtain ⟨found, means, several⟩ := (Option.any_eq_true _ _).mp several
      exact ⟨c, found, here, ((b.made_of_get here).mem_names_iff name).mp own, means,
        of_decide_eq_true several⟩
    · intro given
      rcases given with ⟨c, found, here, listed, means, several⟩
      refine ⟨⟨c, here, ((b.made_of_get here).mem_names_iff name).mpr listed⟩, ?_⟩
      exact (Option.any_eq_true _ _).mpr ⟨found, means, decide_eq_true several⟩
  · intro w member
    rw [build_warnings_eq built] at member
    obtain ⟨use, listed, warns⟩ := List.mem_filterMap.mp member
    exact b.warns_of listed warns

/-- Two components share their file name and two their name without extension. -/
def twins : List Contract :=
  let contract (id : String) (names : List String) : Contract :=
    { entryId := id, composition := { components := names }, source := .null }
  [contract "a/Row.ts" ["Box", "Box"], contract "b/Row.ts" ["Row"], contract "c/Box.js" [],
   contract "d/Box.jsx" [], contract "App.ts" ["Box", "Row", "Box", "kit"]]

theorem warnings_tell_ambiguous_uses_of_twins :
    ∃ m r, (build "" (.constant (.str "s") (.str "g")) false twins).outcome = .ok m ∧
      m.resolver = .ok r ∧
      m.warnings.map useOf = m.uses.filter (fun use =>
        (r.find? use.2 (some use.1)).any fun found => 1 < found.candidates.length) ∧
      (m.warnings.map useOf).Nodup ∧
      (∀ key name, (key, name) ∈ m.warnings.map useOf ↔
        ∃ c found, m.components.get? key = some c ∧ .str name ∈ c.dependencies ∧
          r.find? name (some key) = some found ∧ 1 < found.candidates.length) ∧
      ∀ w ∈ m.warnings, m.WarnsOf r w := by
  obtain ⟨m, built⟩ := exists_build "" (.str "s") (.str "g") twins
  obtain ⟨r, resolver, told⟩ := warnings_tell_ambiguous_uses built
  exact ⟨m, r, built, resolver, told⟩

example : (build "" (.constant (.str "s") (.str "g")) false twins).outcome.map (·.warnings) =
    .ok [⟨"Box", "a/Row.ts", "c/Box.js", ["c/Box.js", "d/Box.jsx"]⟩,
      ⟨"Box", "App.ts", "c/Box.js", ["c/Box.js", "d/Box.jsx"]⟩,
      ⟨"Row", "App.ts", "a/Row.ts", ["a/Row.ts", "b/Row.ts"]⟩] := by decide +kernel

end ContractGraph.Manifest
