import ContractGraph.Collection.Versions
import ContractGraph.Proofs.Outcome

/-!
# Collections up to versions

Looking versions up changes no collection but for the versions, wherever they are looked up and
whether or not a lookup fails.
-/

namespace ContractGraph

set_option autoImplicit false

/-- A record without its version. -/
def MissingDependency.unversioned (d : MissingDependency) : MissingDependency :=
  { d with packageVersion := none }

def Collection.unversioned (c : Collection) : Collection :=
  { c with missing := c.missing.map MissingDependency.unversioned }

section Lookup

variable {σ : Type} (lookup : VersionLookup σ) (state : σ)

theorem MissingDependency.unversioned_with_version (d : MissingDependency) :
    (d.withVersion lookup state).2.2.unversioned = d.unversioned := by
  rcases named : d.packageName with _ | package
  · simp only [withVersion, named]
  · rcases answer : (lookup state package).version with fault | version
    · simp only [withVersion, named, answer]
    · simp only [withVersion, named, answer, unversioned]

theorem unversioned_add_versions (missing : List MissingDependency) :
    (addVersions lookup state missing).2.2.map MissingDependency.unversioned =
      missing.map MissingDependency.unversioned := by
  induction missing generalizing state with
  | nil => rfl
  | cons d rest ih =>
    simp only [addVersions, List.map_cons]
    rw [ih, d.unversioned_with_version]

theorem Collection.unversioned_with_versions (collected : Logged Collection) :
    (withVersions lookup state collected).2.outcome.map unversioned =
      collected.outcome.map unversioned := by
  rw [withVersions]
  split
  · rfl
  · next c done =>
    have kept := unversioned_add_versions lookup state c.missing
    rw [done]
    simp only [Except.map, unversioned, kept]

/-- A collection with the versions that a lookup gives, if there is one. -/
def Collection.withVersionsBy (lookup? : Option (VersionLookup σ)) (state : σ)
    (collected : Logged Collection) : σ × Logged Collection :=
  match lookup? with
  | none => (state, collected)
  | some lookup => withVersions lookup state collected

theorem Collection.unversioned_with_versions_by (lookup? : Option (VersionLookup σ))
    (collected : Logged Collection) :
    (withVersionsBy lookup? state collected).2.outcome.map unversioned =
      collected.outcome.map unversioned := by
  cases lookup? with
  | none => rfl
  | some lookup => exact unversioned_with_versions lookup state collected

end Lookup

/-- How a source looks versions up, if it does. -/
def VersionSource.lookup? (t : FileTree) : VersionSource → Option (VersionLookup VersionCache)
  | .nowhere => none
  | .root folder => some fun cache package => cache.version t (.ofText folder) package
  | .broken => some brokenLookup

theorem Collection.with_versions_of_eq (t : FileTree) (source : VersionSource)
    (cache : VersionCache) (collected : Logged Collection) :
    withVersionsOf t source cache collected =
      withVersionsBy (source.lookup? t) cache collected := by
  cases source with
  | nowhere => rfl
  | root folder => rfl
  | broken => rfl

namespace Collection

/-- Collections that differ in versions alone agree on what reads no versions. -/
theorem missing_map_congr {β : Type} {f : MissingDependency → β}
    (blind : ∀ d : MissingDependency, f d.unversioned = f d) {c c' : Collection}
    (same : c.unversioned = c'.unversioned) : c.missing.map f = c'.missing.map f := by
  have reads : ∀ c : Collection, c.unversioned.missing.map f = c.missing.map f := by
    intro c
    rw [unversioned, List.map_map]
    exact List.map_congr_left fun d _ => blind d
  rw [← reads c, same, reads]

theorem visited_ids_congr {c c' : Collection} (same : c.unversioned = c'.unversioned) :
    c.visitedIds = c'.visitedIds := by
  change c.unversioned.visitedIds = c'.unversioned.visitedIds
  rw [same]

theorem truncated_congr {c c' : Collection} (same : c.unversioned = c'.unversioned) :
    c.truncated = c'.truncated := by
  change c.unversioned.truncated = c'.unversioned.truncated
  rw [same]

variable {t : FileTree} {source : VersionSource} {cache : VersionCache}
  {collected : Logged Collection}

theorem unversioned_with_versions_of (t : FileTree) (source : VersionSource)
    (cache : VersionCache) (collected : Logged Collection) :
    (withVersionsOf t source cache collected).2.outcome.map unversioned =
      collected.outcome.map unversioned := by
  rw [with_versions_of_eq]
  exact unversioned_with_versions_by cache _ collected

/-- A collection with versions comes from a collection that it agrees with up to the versions. -/
theorem of_with_versions {c : Collection}
    (done : (withVersionsOf t source cache collected).2.outcome = .ok c) :
    ∃ plain, collected.outcome = .ok plain ∧ c.unversioned = plain.unversioned := by
  have same := unversioned_with_versions_of t source cache collected
  rw [done] at same
  obtain ⟨plain, here, equal⟩ := ok_of_map same.symm
  exact ⟨plain, here, equal.symm⟩

theorem with_versions_of_ok {c : Collection} (done : collected.outcome = .ok c) (t : FileTree)
    (source : VersionSource) (cache : VersionCache) :
    ∃ versioned, (withVersionsOf t source cache collected).2.outcome = .ok versioned ∧
      versioned.unversioned = c.unversioned := by
  have same := unversioned_with_versions_of t source cache collected
  rw [done] at same
  exact ok_of_map same

end Collection

end ContractGraph
