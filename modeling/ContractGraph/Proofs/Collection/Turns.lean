import ContractGraph.Collection.Versions
import ContractGraph.Proofs.Package.Declared

/-!
# Turns of a collection

A collection looks the versions of its records up in turns. A turn makes of a record what it makes with
an empty cache when the file that the cache holds for the root of the run gives the same versions as
the root itself. What a run leaves in the cache is the file of its own root, which it bears; so a run
that is alone makes of every record what an empty cache would.
-/

namespace ContractGraph

set_option autoImplicit false

/-- A record after its package was looked up; a lookup that failed leaves it as it is. -/
def MissingDependency.noting (d : MissingDependency) :
    Except Fault (Option String) → MissingDependency
  | .ok version => { d with packageVersion := version }
  | .error _ => d

/-- The cache and a record after one turn of a run that looks versions up in a source. -/
def VersionSource.turn (t : FileTree) (source : VersionSource) (cache : VersionCache)
    (d : MissingDependency) : VersionCache × MissingDependency :=
  match source with
  | .nowhere => (cache, d)
  | .root folder =>
    let turn := d.withVersion (fun cache package => cache.version t (.ofText folder) package) cache
    (turn.1, turn.2.2)
  | .broken =>
    let turn := d.withVersion brokenLookup cache
    (turn.1, turn.2.2)

/-- The cache and the records after turns that follow each other. -/
def VersionSource.turns (t : FileTree) (source : VersionSource) :
    VersionCache → List MissingDependency → VersionCache × List MissingDependency
  | cache, [] => (cache, [])
  | cache, d :: rest =>
    let turn := source.turn t cache d
    let later := source.turns t turn.1 rest
    (later.1, turn.2 :: later.2)

section Turn

variable {t : FileTree} {cache : VersionCache} {d : MissingDependency}

/-- Only a record of a package in a run with a root folder is looked up. -/
theorem VersionSource.turn_quiet {source : VersionSource}
    (quiet : ¬∃ folder package, source = .root folder ∧ d.packageName = some package)
    (cache : VersionCache) : source.turn t cache d = (cache, d) := by
  cases named : d.packageName with
  | none => cases source <;> simp only [turn, MissingDependency.withVersion, named]
  | some package =>
    cases source with
    | root folder => exact absurd ⟨folder, package, rfl, named⟩ quiet
    | nowhere => rfl
    | broken => simp only [turn, MissingDependency.withVersion, named, brokenLookup]

theorem VersionSource.turn_root {folder package : String} (named : d.packageName = some package)
    (cache : VersionCache) : (VersionSource.root folder).turn t cache d =
      ((cache.version t (.ofText folder) package).state,
        d.noting (cache.version t (.ofText folder) package).version) := by
  rcases d with ⟨name, reason, referrer, packageName, packageVersion⟩
  change packageName = some package at named
  subst named
  cases answer : (cache.version t (.ofText folder) package).version <;>
    simp only [turn, MissingDependency.withVersion, answer, MissingDependency.noting]

theorem VersionSource.turns_nowhere (records : List MissingDependency) :
    VersionSource.nowhere.turns t cache records = (cache, records) := by
  induction records with
  | nil => rfl
  | cons d rest ih =>
    rw [turns, turn, ih]

/-- Looking versions up one after the other is taking turns without anyone in between. -/
theorem add_versions_of_turns {lookup : VersionLookup VersionCache} {source : VersionSource}
    (same : ∀ cache d, source.turn t cache d =
      ((d.withVersion lookup cache).1, (d.withVersion lookup cache).2.2))
    (records : List MissingDependency) (cache : VersionCache) :
    (addVersions lookup cache records).2.2 = (source.turns t cache records).2 := by
  induction records generalizing cache with
  | nil => rfl
  | cons d rest ih => rw [VersionSource.turns, same, addVersions, ← ih]

/-- The versions of a collection are those that its turns give. -/
theorem Collection.with_versions_of_turns (source : VersionSource) (collected : Logged Collection) :
    (withVersionsOf t source cache collected).2.outcome =
      collected.outcome.map fun c => { c with missing := (source.turns t cache c.missing).2 } := by
  cases done : collected.outcome with
  | error e =>
    cases source with
    | nowhere => exact done
    | root folder =>
      rw [withVersionsOf, withVersions, done]
      exact done
    | broken =>
      rw [withVersionsOf, withVersions, done]
      exact done
  | ok c =>
    have become : ∀ records, records = (source.turns t cache c.missing).2 →
        (.ok { c with missing := records } : Except Fault Collection) =
          (Except.ok c).map fun c => { c with missing := (source.turns t cache c.missing).2 } := by
      rintro _ rfl
      rfl
    cases source with
    | nowhere =>
      refine Eq.trans ?_ (become c.missing (by rw [VersionSource.turns_nowhere]))
      exact done
    | root folder =>
      rw [withVersionsOf, withVersions, done]
      exact become _ (add_versions_of_turns (fun _ _ => rfl) c.missing cache)
    | broken =>
      rw [withVersionsOf, withVersions, done]
      exact become _ (add_versions_of_turns (fun _ _ => rfl) c.missing cache)

end Turn

/-- What a collection is asked for. -/
structure CollectRun where
  entryId : String
  depth : Bound
  nodes : Bound
  source : VersionSource

namespace CollectRun

variable (t : FileTree) (m : Manifest) (run : CollectRun)

/-- What is collected before any version is looked up. -/
def collected : Logged Collection := do
  let limits ← (Limits.ofBounds run.depth run.nodes : Except Fault Limits)
  m.collect run.entryId limits

/-- The records that a run looks versions up for, in this order. -/
def records : List MissingDependency :=
  match (run.collected m).outcome with
  | .ok c => c.missing
  | .error _ => []

theorem collected_of_mem {m : Manifest} {run : CollectRun} {d : MissingDependency}
    (member : d ∈ run.records m) : ∃ c, (run.collected m).outcome = .ok c := by
  rw [records] at member
  split at member
  · next c done => exact ⟨c, done⟩
  · cases member

/-- What a run returns when its records have become these. -/
def returned (records : List MissingDependency) : Except Fault Collection :=
  (run.collected m).outcome.map fun c => { c with missing := records }

/-- What a run returns alone, with a cache of its own. -/
def alone : Except Fault Collection :=
  (Collection.withVersionsOf t run.source {} (run.collected m)).2.outcome

/-- What a run makes of a record with an empty cache. -/
def note (d : MissingDependency) : MissingDependency := (run.source.turn t {} d).2

/-- Whether a run leaves a file in the cache under a resolved root. -/
structure Keeps (r : Location.Resolved) (file : Option PackageFile) : Prop where
  asks : ∃ d ∈ run.records m, d.packageName.isSome = true
  reads : ∃ folder, run.source = .root folder ∧ (Location.ofText folder).hasNul = false ∧
    (Location.ofText folder).resolve = r ∧ (t.packageFile (.ofText folder)).outcome = .ok file

/-- Whether a run makes of its records with a file from the cache what it makes of them alone. -/
def Bears (file : Option PackageFile) : Prop :=
  ∀ d ∈ run.records m, ∀ package, d.packageName = some package →
    d.noting (.ok (file.bind (·.version? package))) = run.note t d

/-- Whether a run finds in the cache no other versions than its own when another run was there. -/
def Undisturbed (other : CollectRun) : Prop :=
  ∀ folder file, run.source = .root folder → (Location.ofText folder).hasNul = false →
    other.Keeps t m (Location.ofText folder).resolve file → run.Bears t m file

end CollectRun

/-- A cache that holds nothing but what is allowed. -/
def VersionCache.From (kept : Location.Resolved → Option PackageFile → Prop)
    (cache : VersionCache) : Prop :=
  ∀ r file, cache.files.get? r = some file → kept r file

section Turns

variable {t : FileTree} {m : Manifest} {run : CollectRun} {cache : VersionCache}
  {kept : Location.Resolved → Option PackageFile → Prop} {d : MissingDependency}

/-- A turn adds nothing to the cache but the file that the run keeps. -/
theorem CollectRun.turn_from (whole : cache.From kept)
    (own : ∀ r file, run.Keeps t m r file → kept r file) (member : d ∈ run.records m) :
    (run.source.turn t cache d).1.From kept := by
  by_cases asks : ∃ folder package, run.source = .root folder ∧ d.packageName = some package
  · obtain ⟨folder, package, source, named⟩ := asks
    rw [source, VersionSource.turn_root named]
    rcases VersionCache.state_cases t (.ofText folder) cache package with same |
      ⟨clear, -, file, found, same⟩
    · rw [same]
      exact whole
    · rw [same]
      intro r other there
      rw [Table.get_insert] at there
      split at there
      · next here =>
        cases there
        exact own r _ ⟨⟨d, member, by simp [named]⟩, folder, source, clear, eq_of_beq here, found⟩
      · exact whole r other there
  · rw [VersionSource.turn_quiet asks]
    exact whole

/-- A turn makes of a record what it makes with an empty cache, when what the cache holds is borne. -/
theorem CollectRun.turn_note (whole : cache.From kept)
    (bears : ∀ folder file, run.source = .root folder → (Location.ofText folder).hasNul = false →
      kept (Location.ofText folder).resolve file → run.Bears t m file)
    (member : d ∈ run.records m) : (run.source.turn t cache d).2 = run.note t d := by
  rw [note]
  by_cases asks : ∃ folder package, run.source = .root folder ∧ d.packageName = some package
  · obtain ⟨folder, package, source, named⟩ := asks
    cases clear : (Location.ofText folder).hasNul with
    | true =>
      rw [source, VersionSource.turn_root named, VersionSource.turn_root named,
        VersionCache.version_of_nul clear, VersionCache.version_of_nul clear]
    | false =>
      cases there : cache.files.get? (Location.ofText folder).resolve with
      | some file =>
        have same := bears folder file source clear (whole _ _ there) d member package named
        rw [note, source] at same
        rw [source, ← same, VersionSource.turn_root named, VersionCache.version_kept clear there]
      | none =>
        rw [source, VersionSource.turn_root named, VersionSource.turn_root named,
          VersionCache.version_fresh clear there, VersionCache.version_fresh clear rfl]
  · rw [VersionSource.turn_quiet asks, VersionSource.turn_quiet asks]

/-- A run bears the file that it keeps itself. -/
theorem CollectRun.Keeps.bears_own {r : Location.Resolved} {file : Option PackageFile}
    (keeps : run.Keeps t m r file) : run.Bears t m file := by
  obtain ⟨-, folder, source, clear, -, found⟩ := keeps
  intro d _ package named
  rw [note, source, VersionSource.turn_root named, VersionCache.version_fresh clear rfl,
    FileTree.lookedUp, found]
  rfl

theorem CollectRun.turns_note {records : List MissingDependency}
    (whole : cache.From (run.Keeps t m)) (each : ∀ d ∈ records, d ∈ run.records m) :
    (run.source.turns t cache records).2 = records.map (run.note t) := by
  induction records generalizing cache with
  | nil => rfl
  | cons d rest ih =>
    have member := each d List.mem_cons_self
    have first := turn_note whole (fun _ _ _ _ keeps => keeps.bears_own) member
    have later := ih (turn_from whole (fun _ _ keeps => keeps) member)
      fun e there => each e (List.mem_cons_of_mem d there)
    rw [VersionSource.turns, List.map_cons, ← first, ← later]

/-- What the cache holds stays there. -/
theorem VersionSource.turn_keeps {source : VersionSource} {r : Location.Resolved}
    {file : Option PackageFile} (there : cache.files.get? r = some file) (d : MissingDependency) :
    (source.turn t cache d).1.files.get? r = some file := by
  by_cases asks : ∃ folder package, source = .root folder ∧ d.packageName = some package
  · obtain ⟨folder, package, rfl, named⟩ := asks
    rw [turn_root named]
    rcases VersionCache.state_cases t (.ofText folder) cache package with same | ⟨-, none, _, -, same⟩
    · rw [same]
      exact there
    · have other : r ≠ (Location.ofText folder).resolve := by
        rintro rfl
        rw [there] at none
        cases none
      rw [same, Table.get_insert_of_ne _ _ other]
      exact there
  · rw [turn_quiet asks]
    exact there

theorem VersionSource.turns_keep {source : VersionSource} {r : Location.Resolved}
    {file : Option PackageFile} (there : cache.files.get? r = some file)
    (records : List MissingDependency) :
    (source.turns t cache records).1.files.get? r = some file := by
  induction records generalizing cache with
  | nil => exact there
  | cons d rest ih => exact ih (turn_keeps there d)

/-- Turns that leave the cache alone do not depend on each other. -/
theorem VersionSource.turns_of_kept {source : VersionSource} {records : List MissingDependency}
    (kept : ∀ d ∈ records, (source.turn t cache d).1 = cache) :
    source.turns t cache records = (cache, records.map fun d => (source.turn t cache d).2) := by
  induction records with
  | nil => rfl
  | cons d rest ih =>
    obtain ⟨first, later⟩ := List.forall_mem_cons.mp kept
    rw [turns, first, ih later]
    rfl

/-- A run whose file is in the cache answers from there and changes nothing. -/
theorem VersionSource.turn_kept {folder : String} {file : Option PackageFile}
    (clear : (Location.ofText folder).hasNul = false)
    (there : cache.files.get? (Location.ofText folder).resolve = some file)
    (d : MissingDependency) : ((VersionSource.root folder).turn t cache d).1 = cache := by
  cases named : d.packageName with
  | none => rw [turn_quiet (by simp [named])]
  | some package => rw [turn_root named, VersionCache.version_kept clear there]

/-- The file that a run keeps is in the cache when the run has looked something up. -/
theorem CollectRun.Keeps.left {r : Location.Resolved} {file : Option PackageFile}
    (keeps : run.Keeps t m r file) :
    (run.source.turns t {} (run.records m)).1.files.get? r = some file := by
  obtain ⟨⟨d, member, asks⟩, folder, source, clear, rfl, found⟩ := keeps
  rw [source]
  generalize run.records m = records at member
  induction records with
  | nil => cases member
  | cons e rest ih =>
    cases named : e.packageName with
    | none =>
      have quiet : (VersionSource.root folder).turn t {} e = ({}, e) :=
        VersionSource.turn_quiet (by simp [named]) {}
      have later : d ∈ rest := by
        rcases List.mem_cons.mp member with rfl | later
        · simp [named] at asks
        · exact later
      rw [VersionSource.turns, quiet]
      exact ih later
    | some package =>
      refine VersionSource.turns_keep ?_ rest
      rw [VersionSource.turn_root named, VersionCache.state_fresh clear rfl found]
      exact Table.get_insert_self _ _ _

theorem CollectRun.returned_injective {c : Collection} (done : (run.collected m).outcome = .ok c)
    {records others : List MissingDependency}
    (same : run.returned m records = run.returned m others) : records = others := by
  rw [returned, returned, done] at same
  exact congrArg Collection.missing (Except.ok.inj same)

theorem CollectRun.alone_eq (t : FileTree) (m : Manifest) (run : CollectRun) :
    run.alone t m = run.returned m ((run.records m).map (run.note t)) := by
  have empty : ({} : VersionCache).From (run.Keeps t m) := fun _ _ there => nomatch there
  rw [alone, Collection.with_versions_of_turns, returned]
  cases done : (run.collected m).outcome with
  | error e => rfl
  | ok c =>
    have listed : run.records m = c.missing := by rw [records, done]
    have noted := turns_note empty (fun d (member : d ∈ c.missing) => listed ▸ member)
    rw [listed, ← noted]
    rfl

end Turns

end ContractGraph
