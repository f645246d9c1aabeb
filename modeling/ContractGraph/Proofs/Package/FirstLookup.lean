import ContractGraph.Proofs.Package.Declared

/-!
# Versions from the first lookup

Lookups of one cache while the files change. Each answer comes from the files as they were at the
first lookup of its resolved root since the cache was cleared. A run answers every lookup with what
was declared then exactly when each first lookup, as its root was spelled, reached the declaration.
-/

namespace ContractGraph

set_option autoImplicit false

/-- What happens between the lookups of a cache and at them. -/
inductive VersionStep where
  | files (tree : FileTree)
  | clear
  | version (package root : String)

/-- The answers of a cache, whatever the files become in between. -/
def VersionCache.answers (cache : VersionCache) (t : FileTree) :
    List VersionStep → List (Except Fault (Option String))
  | [] => []
  | .files t :: rest => cache.answers t rest
  | .clear :: rest => answers {} t rest
  | .version package root :: rest =>
    let answer := cache.version t (.ofText root) package
    answer.version :: answers answer.state t rest

/-- A lookup and the first one of its resolved root since the cache was cleared: the files at that
moment and the root as it was spelled then. -/
structure Lookup where
  package : String
  root : Location
  tree : FileTree
  first : Location

namespace Lookup

/-- The version that was declared in the resolved root at the first lookup. -/
def declared (l : Lookup) : Option String := l.tree.declared l.root.resolve l.package

/-- When a lookup answers with what was declared. -/
def Answers (l : Lookup) : Prop :=
  l.root.hasNul = false ∧ l.tree.Reaches l.first l.package

end Lookup

/-- The first lookups since the cache was cleared, by resolved root. -/
abbrev FirstLookups := Location.Resolved → Option (FileTree × Location)

namespace FirstLookups

/-- A lookup in the files as they are. -/
def lookup (firsts : FirstLookups) (t : FileTree) (package : String) (root : Location) : Lookup :=
  let first := (firsts root.resolve).getD (t, root)
  ⟨package, root, first.1, first.2⟩

/-- The first lookups after a lookup. -/
def after (firsts : FirstLookups) (l : Lookup) : FirstLookups :=
  Function.update firsts l.root.resolve (some (l.tree, l.first))

/-- All lookups, whatever the files become in between. -/
def lookups (firsts : FirstLookups) (t : FileTree) : List VersionStep → List Lookup
  | [] => []
  | .files t :: rest => firsts.lookups t rest
  | .clear :: rest => lookups (fun _ => none) t rest
  | .version package root :: rest =>
    let l := firsts.lookup t package (.ofText root)
    l :: lookups (firsts.after l) t rest

end FirstLookups

namespace VersionCache

variable {t : FileTree} {root : Location} {cache : VersionCache} {firsts : FirstLookups}
  {package : String}

/-- A cache holds what the first lookup of each root found. -/
structure Holds (cache : VersionCache) (firsts : FirstLookups) : Prop where
  fresh : ∀ r, firsts r = none → cache.files.get? r = none
  found : ∀ r tree first, firsts r = some (tree, first) →
    first.resolve = r ∧ first.hasNul = false ∧
      ∃ file, (tree.packageFile first).outcome = .ok file ∧ cache.files.get? r = some file

theorem Holds.empty : ({} : VersionCache).Holds fun _ => none where
  fresh := fun _ _ => rfl
  found := fun _ _ _ some => nomatch some

/-- A lookup answers with what was declared at the first one exactly when that one reached it. -/
theorem Holds.answer_iff (h : cache.Holds firsts) :
    (cache.version t root package).version = .ok (firsts.lookup t package root).declared ↔
      (firsts.lookup t package root).Answers := by
  cases nul : root.hasNul with
  | true => simp [version_of_nul nul, Lookup.Answers, FirstLookups.lookup, nul]
  | false =>
    cases known : firsts root.resolve with
    | none =>
      have reached := t.looked_up_iff package nul
      simpa [version_fresh nul (h.fresh _ known), Lookup.Answers, Lookup.declared,
        FirstLookups.lookup, known, nul] using reached
    | some first =>
      obtain ⟨same, clear, file, outcome, kept⟩ := h.found _ first.1 first.2 known
      have reached := first.1.looked_up_iff package clear
      have answer : first.1.lookedUp first.2 package =
          .ok (file.bind (·.version? package)) := by
        rw [FileTree.lookedUp, outcome]
        rfl
      rw [answer, same] at reached
      simpa [version_kept nul kept, Lookup.Answers, Lookup.declared, FirstLookups.lookup, known,
        nul] using reached

/-- After a lookup that answered, the cache holds what the first lookups found. -/
theorem Holds.after (h : cache.Holds firsts) (answers : (firsts.lookup t package root).Answers) :
    (cache.version t root package).state.Holds
      (firsts.after (firsts.lookup t package root)) := by
  have clear : root.hasNul = false := answers.1
  cases known : firsts root.resolve with
  | some first =>
    obtain ⟨-, -, file, -, kept⟩ := h.found _ first.1 first.2 known
    have same : firsts.after (firsts.lookup t package root) = firsts := by
      rw [FirstLookups.after, FirstLookups.lookup, known]
      exact Function.update_eq_self_iff.mpr known.symm
    rw [version_kept clear kept, same]
    exact h
  | none =>
    have first : firsts.lookup t package root = ⟨package, root, t, root⟩ := by
      rw [FirstLookups.lookup, known]
      rfl
    have none := h.fresh _ known
    rw [first] at answers ⊢
    obtain ⟨file, outcome, -⟩ := ok_of_map ((t.looked_up_iff package clear).mpr answers.2)
    rw [state_fresh clear none outcome]
    refine ⟨?_, ?_⟩
    · intro r unknown
      by_cases own : r = root.resolve
      · simp [FirstLookups.after, own] at unknown
      · rw [Table.get_insert_of_ne _ _ own]
        exact h.fresh r (by simpa [FirstLookups.after, own] using unknown)
    · intro r tree other found
      by_cases own : r = root.resolve
      · simp only [FirstLookups.after, own, Function.update_self, Option.some.injEq,
          Prod.mk.injEq] at found
        obtain ⟨rfl, rfl⟩ := found
        exact ⟨own.symm, clear, file, outcome, by rw [own, Table.get_insert_self]⟩
      · rw [Table.get_insert_of_ne _ _ own]
        exact h.found r tree other (by simpa [FirstLookups.after, own] using found)

theorem Holds.answers_iff (h : cache.Holds firsts) (steps : List VersionStep) :
    cache.answers t steps = (firsts.lookups t steps).map (fun l => .ok l.declared) ↔
      ∀ l ∈ firsts.lookups t steps, l.Answers := by
  induction steps generalizing t cache firsts with
  | nil => simp [answers, FirstLookups.lookups]
  | cons s rest ih =>
    cases s with
    | files tree => exact ih h
    | clear => exact ih .empty
    | version package root =>
      rw [answers, FirstLookups.lookups, List.map_cons, List.cons_eq_cons, List.forall_mem_cons,
        h.answer_iff]
      refine and_congr_right ?_
      intro answered
      exact ih (h.after answered)

end VersionCache

/-- Every lookup of a run answers with what was declared in its resolved root at the first lookup of
that root since the cache was cleared, exactly when the first lookups reach what was declared. -/
theorem versions_stem_from_first_lookup (t : FileTree) (steps : List VersionStep) :
    ({} : VersionCache).answers t steps =
        (FirstLookups.lookups (fun _ => none) t steps).map (fun l => .ok l.declared) ↔
      ∀ l ∈ FirstLookups.lookups (fun _ => none) t steps, l.Answers :=
  VersionCache.Holds.empty.answers_iff steps

/-- A folder with a package file. -/
def packageFolder : FileTree where
  nodes := .ofList [
    (["b"], .folder),
    (["b", "package.json"], .file "\x7b\"dependencies\": \x7b\"p\": \"1\"\x7d\x7d".toUTF8)]
  named := by decide +kernel
  closed := by decide +kernel

/-- A root that is spelled through a folder that is not there hides the package file of the folder
that it resolves to, also from the lookups that spell the root otherwise. -/
theorem broken_spelling_hides_versions :
    ({} : VersionCache).answers packageFolder [.version "p" "gone/../b", .version "p" "b"] =
        [.ok none, .ok none] ∧
      (FirstLookups.lookups (fun _ => none) packageFolder
        [.version "p" "gone/../b", .version "p" "b"]).map (fun l => l.declared) =
        [some "1", some "1"] := by
  decide +kernel

end ContractGraph
