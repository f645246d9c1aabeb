import ContractGraph.Proofs.Collection.Completes
import ContractGraph.Proofs.Collection.Versions

/-!
# The version of every record

A lookup may keep a state, answer differently from call to call and fail on any call. The records of a
collection are looked up in their order, those without a package are passed over, and each record gets
the answer of its own call and nothing of the others. A record whose call fails stays without a
version, and the calls behind it are made all the same.
-/

namespace ContractGraph

set_option autoImplicit false

namespace Collection

variable {w w' : Walk}

theorem mem_of_report {d e : MissingDependency} (done : w.report d = .ok w')
    (member : e ∈ w'.missing) : e ∈ w.missing ∨ e = d := by
  obtain ⟨known, -, done⟩ := ok_of_bind done
  split at done
  · cases done
    exact .inl member
  · cases done
    exact (List.mem_append.mp member).imp_right List.mem_singleton.mp

/-- A walk gives no version to what it reports. -/
theorem unversioned_kept (s : Scope) :
    s.Keeps fun w => ∀ d ∈ w.missing, d.packageVersion = none where
  visit _ before _ _ := before
  entry before _ report d member := by
    rcases mem_of_report report member with earlier | rfl
    · exact before d earlier
    · rfl
  dependency before _ _ report d member := by
    rcases mem_of_report report member with earlier | rfl
    · exact before d earlier
    · rfl

end Collection

theorem Manifest.collect_unversioned {m : Manifest} {entryId : String} {limits : Limits}
    {c : Collection} (collected : (m.collect entryId limits).outcome = .ok c) :
    ∀ d ∈ c.missing, d.packageVersion = none := by
  obtain ⟨w, dropped?, run, rfl⟩ := collect_walk collected
  obtain ⟨r, -, walked⟩ := ok_of_bind run
  exact (Collection.unversioned_kept _).walk_levels (by simp) walked

section Lookup

variable {σ : Type} (lookup : VersionLookup σ) (state : σ)

/-- The state that a lookup is left in when the packages of some records were looked up, one after the
other. -/
def VersionLookup.after (records : List MissingDependency) : σ :=
  (records.filterMap (·.packageName)).foldl (fun state package => (lookup state package).state) state

/-- The version that a lookup gives for a package. One that fails gives none. -/
def VersionLookup.given (package : String) : Option String :=
  (lookup state package).version.toOption.join

/-- The version that a record gets behind others: what is given for its own package in the state that
the others left. -/
def VersionLookup.own (before : List MissingDependency) (d : MissingDependency) : Option String :=
  d.packageName.bind (lookup.given (lookup.after state before))

theorem VersionLookup.after_cons (d : MissingDependency) (rest : List MissingDependency) :
    lookup.after state (d :: rest) = lookup.after (lookup.after state [d]) rest := by
  rw [after, after, after, ← List.foldl_append, ← List.filterMap_append]
  rfl

theorem VersionLookup.own_cons (d e : MissingDependency) (before : List MissingDependency) :
    lookup.own state (d :: before) e = lookup.own (lookup.after state [d]) before e := by
  rw [own, own, after_cons]

/-- One record is looked up, and nothing but its version changes. -/
theorem MissingDependency.with_version_own {d : MissingDependency}
    (unversioned : d.packageVersion = none) :
    (d.withVersion lookup state).1 = lookup.after state [d] ∧
      (d.withVersion lookup state).2.2 = { d with packageVersion := lookup.own state [] d } := by
  rcases d with ⟨name, reason, referrer, packageName, packageVersion⟩
  change packageVersion = none at unversioned
  subst unversioned
  cases packageName with
  | none => exact ⟨rfl, rfl⟩
  | some package =>
    cases answer : (lookup state package).version <;>
      simp [withVersion, VersionLookup.own, VersionLookup.given, VersionLookup.after, answer,
        Except.toOption]

theorem add_versions_own {records : List MissingDependency}
    (unversioned : ∀ d ∈ records, d.packageVersion = none) :
    (addVersions lookup state records).1 = lookup.after state records ∧
      (addVersions lookup state records).2.2 = records.mapIdx fun i d =>
        { d with packageVersion := lookup.own state (records.take i) d } := by
  induction records generalizing state with
  | nil => exact ⟨rfl, rfl⟩
  | cons d rest ih =>
    obtain ⟨left, own⟩ := MissingDependency.with_version_own lookup state
      (unversioned d List.mem_cons_self)
    obtain ⟨last, others⟩ := ih (lookup.after state [d])
      fun e member => unversioned e (List.mem_cons_of_mem d member)
    constructor
    · rw [VersionLookup.after_cons, ← last, ← left]
      rfl
    · rw [List.mapIdx_cons, List.take_zero, ← own]
      simp only [List.take_succ_cons, VersionLookup.own_cons]
      rw [← others, ← left]
      rfl

end Lookup

/-- Without a collection nothing is looked up. -/
theorem Collection.with_versions_refused {σ : Type} {collected : Logged Collection} {fault : Fault}
    (refused : collected.outcome = .error fault) (lookup? : Option (VersionLookup σ)) (state : σ) :
    withVersionsBy lookup? state collected = (state, collected) := by
  cases lookup? with
  | none => rfl
  | some lookup =>
    rw [withVersionsBy, withVersions]
    simp only [refused]

/-- A collection and the same one with the versions that its records get, each behind those that stand
before it. -/
structure Collection.AddsVersions (plain versioned : Collection)
    (version : List MissingDependency → MissingDependency → Option String) : Prop where
  entry_id : versioned.entryId = plain.entryId
  visited : versioned.visited = plain.visited
  truncated : versioned.truncated = plain.truncated
  missing : versioned.missing = plain.missing.mapIdx fun i d =>
    { d with packageVersion := version (plain.missing.take i) d }

namespace Manifest

variable {now : String} {hasher : Hasher} {withIndex : Bool} {contracts : List Contract}
  {m : Manifest} {σ : Type}

/-- What is collected within bounds, before any version is looked up. -/
def collectWithin (m : Manifest) (entryId : String) (depth nodes : Bound) : Logged Collection := do
  let limits ← (Limits.ofBounds depth nodes : Except Fault Limits)
  m.collect entryId limits

theorem collect_within_refused {depth nodes : Bound} {fault : Fault}
    (refused : Limits.ofBounds depth nodes = .error fault) (m : Manifest) (entryId : String) :
    (m.collectWithin entryId depth nodes).outcome = .error fault := by
  rw [collectWithin, refused]
  rfl

theorem collect_within_accepted {depth nodes : Bound} {limits : Limits}
    (accepted : Limits.ofBounds depth nodes = .ok limits) (m : Manifest) (entryId : String) :
    (m.collectWithin entryId depth nodes).outcome = (m.collect entryId limits).outcome := by
  rw [collectWithin, accepted, Logged.outcome_bind]
  rfl

theorem with_versions_added {entryId : String} {limits : Limits} {plain : Collection}
    {collected : Logged Collection} (same : collected.outcome = .ok plain)
    (done : (m.collect entryId limits).outcome = .ok plain)
    (lookup? : Option (VersionLookup σ)) (state : σ) :
    (Collection.withVersionsBy lookup? state collected).1 =
        lookup?.elim state (·.after state plain.missing) ∧
      ∃ versioned, (Collection.withVersionsBy lookup? state collected).2.outcome = .ok versioned ∧
        plain.AddsVersions versioned fun before d => lookup?.bind (·.own state before d) := by
  have unversioned := collect_unversioned done
  cases lookup? with
  | none =>
    have kept : ∀ d ∈ plain.missing, { d with packageVersion := none } = d := by
      intro d member
      rw [← unversioned d member]
    refine ⟨rfl, plain, same, rfl, rfl, rfl, ?_⟩
    exact (List.mapIdx_eq_iff.mpr fun i => by
      cases here : plain.missing[i]? with
      | none => rfl
      | some d => simp [kept d (List.mem_of_getElem? here)]).symm
  | some lookup =>
    obtain ⟨left, own⟩ := add_versions_own lookup state unversioned
    rw [Collection.withVersionsBy, Collection.withVersions, same]
    exact ⟨left, _, rfl, rfl, rfl, rfl, own⟩

/-- Below a root, or without one, the versions that are looked up are added to what is collected and
nothing else changes, whatever the lookup answers and wherever it fails: bounds that are refused are
refused alike, and within any others every record gets the version of its own lookup, or none when there
is no root, the record has no package or its lookup fails. The packages of the records are looked up
once each, in their order. -/
theorem versions_only_added (built : (build now hasher withIndex contracts).outcome = .ok m)
    (classifier : String → VersionLookup σ) (state : σ) (root : Option String) (entryId : String)
    (depth nodes : Bound) :
    (∃ fault, Limits.ofBounds depth nodes = .error fault ∧
        (m.collectWithin entryId depth nodes).outcome = .error fault ∧
        (Collection.withVersionsBy (root.map classifier) state
          (m.collectWithin entryId depth nodes)).2.outcome = .error fault) ∨
      ∃ limits plain versioned, Limits.ofBounds depth nodes = .ok limits ∧
        (m.collectWithin entryId depth nodes).outcome = .ok plain ∧
        (Collection.withVersionsBy (root.map classifier) state
          (m.collectWithin entryId depth nodes)).2.outcome = .ok versioned ∧
        plain.AddsVersions versioned
          (fun before d => root.bind fun folder => (classifier folder).own state before d) ∧
        (Collection.withVersionsBy (root.map classifier) state
          (m.collectWithin entryId depth nodes)).1 =
            root.elim state fun folder => (classifier folder).after state plain.missing := by
  cases bounds : Limits.ofBounds depth nodes with
  | error fault =>
    have refused := collect_within_refused bounds m entryId
    refine .inl ⟨fault, rfl, refused, ?_⟩
    rw [Collection.with_versions_refused refused]
    exact refused
  | ok limits =>
    obtain ⟨plain, done⟩ := (build_built built).walkable.collect_ok entryId limits
    have within := collect_within_accepted bounds m entryId
    obtain ⟨left, versioned, returned, adds⟩ :=
      with_versions_added (within.trans done) done (root.map classifier) state
    refine .inr ⟨limits, plain, versioned, rfl, within.trans done, returned, ?_, ?_⟩
    · cases root <;> exact adds
    · cases root <;> exact left

/-- Answers that are given one after the other, whatever is asked for. -/
def scripted (_folder : String) : VersionLookup (List (Except Fault (Option String)))
  | [], _ => ⟨[], [], .ok none⟩
  | answer :: rest, _ => ⟨rest, [], answer⟩

/-- Names of packages around one that means a component and one that is no package. -/
def imports : List Contract :=
  let contract (id : String) (names : List String) : Contract :=
    { entryId := id, composition := { components := names }, source := .null }
  [contract "a.ts" ["kit/x", "Card", "left-pad", "./Row", "react"], contract "b/Card.ts" ["@s/p", "kit/x"]]

theorem versions_only_added_of_imports :
    ∃ m, (build "" (.constant (.str "s") (.str "g")) false imports).outcome = .ok m ∧
      ∃ limits plain versioned, Limits.ofBounds (.whole 1) (.whole 9) = .ok limits ∧
        (m.collectWithin "a.ts" (.whole 1) (.whole 9)).outcome = .ok plain ∧
        (Collection.withVersionsBy (some (scripted "lib"))
          [.error .notUtf8, .ok (some "1"), .ok (some "2")]
          (m.collectWithin "a.ts" (.whole 1) (.whole 9))).2.outcome = .ok versioned ∧
        plain.AddsVersions versioned (fun before d =>
          (scripted "lib").own [.error .notUtf8, .ok (some "1"), .ok (some "2")] before d) ∧
        versioned.missing.map (·.packageVersion) = [none, some "1", none, some "2"] := by
  have runs : (do
      let m ← build "" (.constant (.str "s") (.str "g")) false imports
      let c ← (Collection.withVersionsBy (some (scripted "lib"))
        [.error .notUtf8, .ok (some "1"), .ok (some "2")]
        (m.collectWithin "a.ts" (.whole 1) (.whole 9))).2
      pure (c.missing.map (·.packageVersion)) : Logged (List (Option String))).outcome =
        .ok [none, some "1", none, some "2"] := by decide +kernel
  obtain ⟨m, built, runs⟩ := Logged.ok_of_bind runs
  obtain ⟨c, ran, versions⟩ := Logged.ok_of_bind runs
  rcases versions_only_added built scripted [.error .notUtf8, .ok (some "1"), .ok (some "2")]
    (some "lib") "a.ts" (.whole 1) (.whole 9) with
    ⟨fault, -, -, refused⟩ | ⟨limits, plain, versioned, accepted, done, returned, adds, -⟩
  · cases ran.symm.trans refused
  · cases ran.symm.trans returned
    exact ⟨m, built, limits, plain, c, accepted, done, ran, adds, Except.ok.inj versions⟩

end Manifest

end ContractGraph
