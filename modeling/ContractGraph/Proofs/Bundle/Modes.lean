import ContractGraph.Proofs.Bundle.Closed

/-!
# Strict packing and packing with contracts missing

Whether packing is strict and whether contracts may be missing decides nothing when all visited keys
have a contract. Otherwise strict packing is refused for the first that has none. Packing that is not
strict is refused only when none has one, and allowing that contracts are missing leaves out the
reports of them and changes nothing else.
-/

namespace ContractGraph.Bundle

set_option autoImplicit false

variable {now : String} {m : Manifest} {contracts : Table String Contract} {options : PackOptions}
  {limits : Limits} {key : String} {c : Collection}

theorem assemble_complete (all : unpacked contracts c.visitedIds = []) (options other : PackOptions) :
    assemble now m contracts options limits key c =
      assemble now m contracts other limits key c := by
  simp only [assemble, all, List.map_nil, ite_self]
  cases options.strict <;> cases other.strict <;> rfl

/-- How packing one collection to a depth goes when it is strict or not and when contracts may be
missing or not: `packed strict allowMissing` is the outcome for these two. -/
structure ModesAgree (contracts : Table String Contract) (depth : Bound) (key : String)
    (visited : List String) (packed : Bool → Bool → Except Fault Bundle) : Prop where
  entered : visited ≠ []
  complete : (∀ id ∈ visited, ∃ k, contracts.get? id = some k) →
    ∀ strict allowMissing, packed strict allowMissing = packed false false
  strict_refused : ∀ id, visited.find? (fun id => (contracts.get? id).isNone) = some id →
    ∀ allowMissing, packed true allowMissing = .error (.missingContract id)
  refused_iff : ∀ allowMissing, packed false allowMissing = .error (.missingContract key) ↔
    ∀ id ∈ visited, contracts.get? id = none
  reported : packed false false = (packed false true).map fun b =>
    { b with missing := b.missing ++
        (visited.filter fun id => (contracts.get? id).isNone).map notLoaded }
  returned : depth.toValue.digits ≤ Json.maxDigits →
    (∃ id ∈ visited, ∃ k, contracts.get? id = some k) →
    (∀ n ∈ packedNodes contracts visited, n.Stable) →
    ∀ allowMissing, ∃ b, packed false allowMissing = .ok b

theorem assemble_modes {listed : List Contract} (built : m.Built listed)
    (entered : c.visitedIds ≠ []) (given : Except Fault Limits) (versions : VersionSource) :
    ModesAgree contracts limits.depth key c.visitedIds fun strict allowMissing =>
      (assemble now m contracts ⟨given, versions, allowMissing, strict⟩ limits key c).outcome := by
  constructor
  case entered => exact entered
  case complete =>
    intro all strict allowMissing
    rw [assemble_complete (unpacked_nil_iff.mpr all)]
  case strict_refused =>
    intro id first allowMissing
    apply assemble_refused rfl
    rw [unpacked_eq, List.head?_filter]
    exact first
  case refused_iff =>
    intro allowMissing
    constructor
    · intro refused
      by_contra some_given
      rw [outcome_assemble (by simp) (mt packed_nodes_nil_iff.mp some_given),
        built.edges_among, Except.bind] at refused
      generalize hash _ _ _ = hashed at refused
      cases hashed with
      | error fault => cases refused
      | ok bundleHash => cases refused
    · intro none
      exact assemble_empty (by simp) (packed_nodes_nil_iff.mpr none)
  case reported =>
    by_cases empty : packedNodes contracts c.visitedIds = []
    · rw [assemble_empty (by simp) empty, assemble_empty (by simp) empty]
      rfl
    · rw [outcome_assemble (by simp) empty, outcome_assemble (by simp) empty, built.edges_among,
        Except.bind, Except.bind]
      generalize hash _ _ _ = hashed
      cases hashed with
      | error fault => rfl
      | ok bundleHash =>
        simp [Except.map, Except.mapError, assembled, reportedIds, unpacked_eq]
  case returned =>
    intro written given stable allowMissing
    rcases given with ⟨id, visit, k, here⟩
    exact assemble_ok built (by simp) (packed_nodes_ne_nil visit here) stable written

/-- When every visited key has a contract, all four ways to pack give the same. Otherwise strict
packing is refused for the first key without one. Packing that is not strict is refused only when no
visited key has a contract, and then for the entry key; and it gives the same bundle with and without
allowing missing contracts, up to the reports of the keys without one, which come last and in the
order of the visit. -/
theorem packing_modes_agree {listed : List Contract} {clock : String} {hasher : Hasher}
    {withIndex : Bool} (built : (Manifest.build clock hasher withIndex listed).outcome = .ok m)
    (named : ∀ c ∈ listed, c.entryId ≠ "") :
    ∃ r, m.resolver = .ok r ∧ ∀ entryId key,
      r.resolve (EntryId.normalize entryId) none = some key →
      ∀ (contracts : Table String Contract) (depth nodes : Nat) (room : 1 ≤ nodes),
        ∃ c, (m.collect key (.counts depth nodes room)).outcome = .ok c ∧
          ∀ (versions : VersionSource) (now : String) (t : FileTree) (cache : VersionCache),
            ModesAgree contracts (.whole depth) key c.visitedIds fun strict allowMissing =>
              (pack now t cache m contracts entryId
                ⟨.ok (.counts depth nodes room), versions, allowMissing, strict⟩).2.outcome := by
  have manifest := Manifest.build_built built
  refine ⟨_, manifest.resolver_eq, ?_⟩
  intro entryId key means contracts depth nodes room
  have entry : (entryKey m entryId).outcome = .ok key :=
    entry_key_ok_iff.mpr ⟨_, manifest.resolver_eq, means⟩
  have member := Resolver.resolve_of_keys_mem means
  obtain ⟨start, found⟩ := Resolver.lookup_key (manifest.keys_named named key member) member
  have order := manifest.collect_order named found depth nodes room
  refine ⟨_, order, ?_⟩
  intro versions now t cache
  -- all four ways assemble this one collection
  obtain ⟨versioned, done, same⟩ := Collection.with_versions_of_ok order t versions cache
  have visited := Collection.visited_ids_congr same
  have entered : versioned.visitedIds ≠ [] := by
    rw [visited]
    exact List.ne_nil_of_mem (m.start_kept depth room start)
  have assembles : (fun strict allowMissing => (pack now t cache m contracts entryId
      ⟨.ok (.counts depth nodes room), versions, allowMissing, strict⟩).2.outcome) =
      fun strict allowMissing => (assemble now m contracts
        ⟨.ok (.counts depth nodes room), versions, allowMissing, strict⟩ (.counts depth nodes room)
        key versioned).outcome := by
    funext strict allowMissing
    exact pack_assembles entry rfl done
  rw [assembles, ← visited]
  change ModesAgree contracts (Limits.counts depth nodes room).depth key _ _
  exact assemble_modes manifest entered _ versions

/-- The third component of the chain is visited and has no contract here. -/
theorem packing_modes_agree_of_chain :
    (∀ c ∈ Manifest.chain, c.entryId ≠ "") ∧
      ∃ m r c, (Manifest.build "" (.constant (.str "s") (.str "g")) false
          Manifest.chain).outcome = .ok m ∧ m.resolver = .ok r ∧
        r.resolve (EntryId.normalize "App") none = some "src/App.tsx" ∧
        (m.collect "src/App.tsx" (.counts 2 9 (by decide))).outcome = .ok c ∧
        ModesAgree (tableOf (Manifest.chain.take 2)) (.whole 2) "src/App.tsx" c.visitedIds
          fun strict allowMissing => (pack "" .empty {} m (tableOf (Manifest.chain.take 2)) "App"
            ⟨.ok (.counts 2 9 (by decide)), .nowhere, allowMissing, strict⟩).2.outcome := by
  have named : ∀ c ∈ Manifest.chain, c.entryId ≠ "" := by decide
  have runs : ((Manifest.build "" (.constant (.str "s") (.str "g")) false
      Manifest.chain).outcome.bind fun m => (entryKey m "App").outcome) = .ok "src/App.tsx" := by
    decide +kernel
  obtain ⟨m, built, entry⟩ := ok_of_bind runs
  obtain ⟨r, resolver, means⟩ := entry_key_ok_iff.mp entry
  obtain ⟨other, same, all⟩ := packing_modes_agree built named
  rw [resolver] at same
  cases same
  obtain ⟨c, collected, agree⟩ := all "App" "src/App.tsx" means
    (tableOf (Manifest.chain.take 2)) 2 9 (by decide)
  exact ⟨named, m, r, c, built, resolver, means, collected, agree .nowhere "" .empty {}⟩

end ContractGraph.Bundle
