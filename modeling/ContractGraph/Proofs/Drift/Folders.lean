import ContractGraph.Drift.ProjectIndex
import ContractGraph.Proofs.Drift.Differences
import Mathlib.Algebra.BigOperators.Group.List.Basic

/-!
# Folders of project indices

A comparison of two indices classifies each context file of either index once, by the last entries
that name it and by its files. The classified files are the rows of the comparison, and its folders,
its totals and the files that are left are read off them. Entries that are no objects or name no
context file play no part.
-/

namespace ContractGraph

set_option autoImplicit false

theorem compare_bundle_files_ok_iff {t : FileTree} {old new : String} {c : Comparison} :
    (compareBundleFiles t old new).outcome = .ok c ↔ ∃ a b, t.loadBundles old = .ok a ∧
      t.loadBundles new = .ok b ∧ (compareBundles a b).outcome = .ok c := by
  constructor
  · intro done
    obtain ⟨a, first, done⟩ := Logged.ok_of_bind done
    obtain ⟨b, second, done⟩ := Logged.ok_of_bind done
    exact ⟨a, b, first, second, done⟩
  · rintro ⟨a, b, first, second, done⟩
    rw [compareBundleFiles, first, second]
    exact done

namespace ProjectIndex

/-- An entry of an index as the folder of a context file. -/
def asFolderOf (file : String) : Json → Option Fields
  | .obj folder =>
    let named := Fields.getD folder "contextFile"
    if named.truthy ∧ named.text = file then some folder else none
  | _ => none

/-- The last folder that an index lists for a context file. -/
def entryOf? (index : Fields) (file : String) : Option Fields :=
  match index.getD "folders" with
  | .arr entries => entries.reverse.findSome? (asFolderOf file)
  | _ => none

theorem get_folders_of (index : Fields) (file : String) :
    (foldersOf index).get? file = entryOf? index file := by
  rw [foldersOf, entryOf?]
  cases index.getD "folders" with
  | arr entries =>
    rw [Table.get_of_list, ← List.filterMap_reverse]
    show _ = entries.reverse.findSome? (asFolderOf file)
    generalize entries.reverse = entries
    induction entries with
    | nil => rfl
    | cons entry rest ih =>
      rw [List.findSome?_cons, List.filterMap_cons]
      cases entry with
      | obj folder =>
        by_cases named : (Fields.getD folder "contextFile").truthy = true
        · by_cases here : (Fields.getD folder "contextFile").text = file
          · simp [asFolderOf, named, here]
          · simpa [asFolderOf, named, here] using ih
        · simpa [asFolderOf, named] using ih
      | _ => exact ih
  | _ => rfl

variable {t : FileTree} {oldBase newBase : Location}

/-- How a context file is classified by its folders of the old and the new index, and what it adds to
the totals. -/
inductive Classified (t : FileTree) (oldBase newBase : Location) (file : String) :
    Option Fields → Option Fields → FolderComparison × Totals → Prop
  | compared {gone folder : Fields} {c : Comparison}
      (done : (compareBundleFiles t (oldBase.child file).text (newBase.child file).text).outcome =
        .ok c) :
      Classified t oldBase newBase file (some gone) (some folder)
        (⟨folderPath folder, file, if c.passed then .pass else .drift, some c, none⟩, totalsOf c)
  | failed {gone folder : Fields} {e : Fault}
      (stopped : (compareBundleFiles t (oldBase.child file).text
        (newBase.child file).text).outcome = .error e) (reported : e.isReported = true) :
      Classified t oldBase newBase file (some gone) (some folder)
        (⟨folderPath folder, file, .drift, none, some e.message⟩, {})
  | added {folder : Fields} :
      Classified t oldBase newBase file none (some folder)
        (⟨folderPath folder, file, .added, none, none⟩, { added := bundleCount folder })
  | orphaned {folder : Fields} :
      Classified t oldBase newBase file (some folder) none
        (⟨folderPath folder, file, .orphaned, none, none⟩, { removed := bundleCount folder })

theorem compare_folder_ok_iff {gone folder : Fields} {file : String}
    {row : FolderComparison × Totals} :
    (compareFolder t folder file (oldBase.child file) (newBase.child file)).outcome = .ok row ↔
      Classified t oldBase newBase file (some gone) (some folder) row := by
  rw [compareFolder]
  constructor
  · intro done
    split at done
    · next c compared =>
      cases done
      exact .compared compared
    · next e stopped =>
      split at done
      · next reported =>
        cases done
        exact .failed stopped reported
      · cases done
  · rintro (done | ⟨stopped, reported⟩)
    · rw [done]
    · rw [stopped]
      simp only [reported, if_true]

variable {old new : Table String Fields}

theorem compare_entry_ok_iff {file : String} {row : FolderComparison × Totals} :
    (compareEntry t oldBase newBase old new file).outcome = .ok (some row) ↔
      Classified t oldBase newBase file (old.get? file) (new.get? file) row := by
  rw [compareEntry]
  generalize old.get? file = was
  generalize new.get? file = now
  constructor
  · intro done
    cases was with
    | some gone =>
      cases now with
      | some folder =>
        rw [Logged.outcome_map] at done
        obtain ⟨made, compared, same⟩ := ok_of_map done
        exact compare_folder_ok_iff.mp (Option.some.inj same ▸ compared)
      | none =>
        cases done
        exact .orphaned
    | none =>
      cases now with
      | some folder =>
        cases done
        exact .added
      | none => cases done
  · intro classified
    cases was with
    | some gone =>
      cases now with
      | some folder =>
        show (some <$> compareFolder t folder file _ _).outcome = _
        rw [Logged.outcome_map, compare_folder_ok_iff.mpr classified]
        rfl
      | none =>
        cases classified
        rfl
    | none =>
      cases classified
      rfl

theorem mem_context_files_iff {file : String} :
    file ∈ contextFiles old new ↔ file ∈ old.keys ∨ file ∈ new.keys := by
  rw [contextFiles, List.mem_append, List.mem_filter, Bool.not_eq_true', ← Bool.not_eq_true,
    Table.contains_iff]
  tauto

theorem context_files_nodup (old new : Table String Fields) : (contextFiles old new).Nodup := by
  refine List.nodup_append'.mpr ⟨old.keys_nodup, new.keys_nodup.filter _, ?_⟩
  intro file before after
  have fresh := (List.mem_filter.mp after).2
  rw [(old.contains_iff file).mpr before] at fresh
  cases fresh

theorem unlisted_of_none {file : String}
    (done : (compareEntry t oldBase newBase old new file).outcome = .ok none) :
    old.get? file = none ∧ new.get? file = none := by
  rw [compareEntry] at done
  cases before : old.get? file with
  | some gone =>
    cases after : new.get? file with
    | some folder =>
      rw [before, after, Logged.outcome_map] at done
      obtain ⟨row, -, same⟩ := ok_of_map done
      cases same
    | none =>
      rw [before, after] at done
      cases done
  | none =>
    cases after : new.get? file with
    | some folder =>
      rw [before, after] at done
      cases done
    | none => exact ⟨rfl, rfl⟩

/-- A context file of either index is classified, if nothing ends the comparison. -/
theorem compare_listed_ok_iff {file : String} (listed : file ∈ contextFiles old new)
    {e : Option (FolderComparison × Totals)} :
    (compareEntry t oldBase newBase old new file).outcome = .ok e ↔
      ∃ row, e = some row ∧
        Classified t oldBase newBase file (old.get? file) (new.get? file) row := by
  constructor
  · intro done
    cases e with
    | some row => exact ⟨row, rfl, compare_entry_ok_iff.mp done⟩
    | none =>
      obtain ⟨before, after⟩ := unlisted_of_none done
      rw [mem_context_files_iff, old.mem_keys_iff, new.mem_keys_iff] at listed
      simp [before, after] at listed
  · rintro ⟨row, rfl, classified⟩
    exact compare_entry_ok_iff.mpr classified

/-- The rows of context files: their folders, and what each adds to the totals. -/
def Rows (t : FileTree) (oldBase newBase : Location) (old new : Table String Fields) :
    List String → List (FolderComparison × Totals) → Prop :=
  List.Forall₂ fun file => Classified t oldBase newBase file (old.get? file) (new.get? file)

theorem compare_entries_ok_iff {files : List String}
    (listed : ∀ file ∈ files, file ∈ contextFiles old new)
    {compared : List (Option (FolderComparison × Totals))} :
    (files.mapM (compareEntry t oldBase newBase old new)).outcome = .ok compared ↔
      ∃ rows, compared = rows.map some ∧ Rows t oldBase newBase old new files rows := by
  rw [Logged.outcome_map_each, map_ok_iff]
  constructor
  · intro each
    induction each with
    | nil => exact ⟨[], rfl, .nil⟩
    | cons done _ ih =>
      rw [List.forall_mem_cons] at listed
      obtain ⟨row, rfl, classified⟩ := (compare_listed_ok_iff listed.1).mp done
      obtain ⟨rows, rfl, others⟩ := ih listed.2
      exact ⟨row :: rows, rfl, .cons classified others⟩
  · rintro ⟨rows, rfl, each⟩
    exact List.forall₂_map_right_iff.mpr (each.imp fun _ _ => compare_entry_ok_iff.mpr)

/-- The comparison that the rows of all context files add up to. -/
def summary (rows : List (FolderComparison × Totals)) (left : List String) : IndexComparison where
  folders := Text.sortedOn (·.folderPath) (rows.map (·.1))
  totals := (rows.map (·.2)).foldl Totals.plus {}
  orphanedFiles := Text.sorted left

/-- The context files of the old index alone. -/
def goneFiles (old new : Table String Fields) : List String :=
  old.keys.filter fun file => !new.contains file

/-- A finished comparison is the summary of the rows of all context files. -/
theorem compare_ok_iff {p q : String} {c : IndexComparison} :
    (compare t p q).outcome = .ok c ↔ ∃ oldIndex newIndex rows left,
      t.loadIndex (Location.ofText p).text = .ok oldIndex ∧
      t.loadIndex (Location.ofText q).text = .ok newIndex ∧
      Rows t (Location.ofText p).parent (Location.ofText q).parent (foldersOf oldIndex)
        (foldersOf newIndex) (contextFiles (foldersOf oldIndex) (foldersOf newIndex)) rows ∧
      (goneFiles (foldersOf oldIndex) (foldersOf newIndex)).filterM
        (isExistingFile t (Location.ofText p).parent) = .ok left ∧
      c = summary rows left := by
  constructor
  · intro done
    obtain ⟨oldIndex, first, done⟩ := Logged.ok_of_bind done
    obtain ⟨newIndex, second, done⟩ := Logged.ok_of_bind done
    obtain ⟨compared, passed, done⟩ := Logged.ok_of_bind done
    obtain ⟨left, asked, done⟩ := Logged.ok_of_bind done
    obtain ⟨rows, rfl, each⟩ := (compare_entries_ok_iff fun _ => id).mp passed
    refine ⟨oldIndex, newIndex, rows, left, first, second, each, asked, ?_⟩
    cases done
    simp only [summary, List.filterMap_map, Function.id_comp, List.filterMap_some]
  · rintro ⟨oldIndex, newIndex, rows, left, first, second, each, asked, rfl⟩
    have compared := (compare_entries_ok_iff fun _ => id).mpr ⟨rows, rfl, each⟩
    refine (Logged.outcome_of_ok first).trans ?_
    refine (Logged.outcome_of_ok second).trans ?_
    refine (Logged.outcome_of_ok compared).trans ?_
    refine (Logged.outcome_of_ok asked).trans ?_
    simp only [summary, List.filterMap_map, Function.id_comp, List.filterMap_some]
    rfl

theorem Classified.file {was now : Option Fields} {file : String} {row : FolderComparison × Totals}
    (classified : Classified t oldBase newBase file was now row) : row.1.contextFile = file := by
  cases classified <;> rfl

theorem Rows.files {files : List String} {rows : List (FolderComparison × Totals)}
    (each : Rows t oldBase newBase old new files rows) :
    (rows.map (·.1)).map (·.contextFile) = files := by
  induction each with
  | nil => rfl
  | cons classified _ ih => exact congrArg₂ List.cons classified.file ih

theorem Rows.classified {files : List String} {rows : List (FolderComparison × Totals)}
    (each : Rows t oldBase newBase old new files rows) {f : FolderComparison}
    (member : f ∈ rows.map (·.1)) : ∃ totals, Classified t oldBase newBase f.contextFile
      (old.get? f.contextFile) (new.get? f.contextFile) (f, totals) := by
  induction each with
  | nil => cases member
  | @cons file row _ _ classified _ ih =>
    rcases List.mem_cons.mp member with rfl | member
    · exact ⟨row.2, classified.file.symm ▸ classified⟩
    · exact ih member

/-- The bundle counts that an index has for the folders of a status. -/
def countsOf (status : FolderStatus) (entry : String → Option Fields)
    (folders : List FolderComparison) : Int :=
  ((folders.filter fun f => f.status = status).map fun f =>
    ((entry f.contextFile).map bundleCount).getD 0).sum

/-- The lengths of a part of the component results of folders. -/
def lengthsOf {ι : Type} (part : Comparison → List ι) (folders : List FolderComparison) : Int :=
  ((folders.filterMap (·.result)).map fun c => ((part c).length : Int)).sum

/-- The totals that folders give: the bundle counts of those in one index alone, and the lengths of the
parts of the component results. -/
def totalsFor (old new : String → Option Fields) (folders : List FolderComparison) : Totals where
  added := countsOf .added new folders + lengthsOf (·.added) folders
  removed := countsOf .orphaned old folders + lengthsOf (·.removed) folders
  changed := lengthsOf (·.changed) folders

theorem counts_of_cons (status : FolderStatus) (entry : String → Option Fields)
    (f : FolderComparison) (rest : List FolderComparison) :
    countsOf status entry (f :: rest) = countsOf status entry [f] + countsOf status entry rest := by
  rw [countsOf, countsOf, countsOf, ← List.sum_append, ← List.map_append, ← List.filter_append]
  rfl

theorem lengths_of_cons {ι : Type} (part : Comparison → List ι) (f : FolderComparison)
    (rest : List FolderComparison) :
    lengthsOf part (f :: rest) = lengthsOf part [f] + lengthsOf part rest := by
  rw [lengthsOf, lengthsOf, lengthsOf, ← List.sum_append, ← List.map_append,
    ← List.filterMap_append]
  rfl

theorem totals_for_cons (old new : String → Option Fields) (f : FolderComparison)
    (rest : List FolderComparison) :
    totalsFor old new (f :: rest) =
      Totals.plus (totalsFor old new [f]) (totalsFor old new rest) := by
  simp only [totalsFor, Totals.plus, counts_of_cons _ _ f rest, lengths_of_cons _ f rest]
  congr 1 <;> omega

theorem totals_for_perm (old new : String → Option Fields) {folders others : List FolderComparison}
    (perm : folders.Perm others) : totalsFor old new folders = totalsFor old new others := by
  have counts : ∀ status entry, countsOf status entry folders = countsOf status entry others :=
    fun _ _ => ((perm.filter _).map _).sum_eq
  have lengths : ∀ {ι : Type} (part : Comparison → List ι),
      lengthsOf part folders = lengthsOf part others :=
    fun _ => ((perm.filterMap _).map _).sum_eq
  simp only [totalsFor, counts, lengths]

/-- What a row adds to the totals is what its folder gives. -/
theorem Classified.totals {old new : String → Option Fields} {file : String}
    {row : FolderComparison × Totals}
    (classified : Classified t oldBase newBase file (old file) (new file) row) :
    row.2 = totalsFor old new [row.1] := by
  generalize before : old file = was at classified
  generalize after : new file = now at classified
  cases classified with
  | @compared _ _ c done =>
    cases c.passed <;> simp [totalsFor, countsOf, lengthsOf, totalsOf]
  | failed stopped reported => simp [totalsFor, countsOf, lengthsOf]
  | added => simp [totalsFor, countsOf, lengthsOf, after]
  | orphaned => simp [totalsFor, countsOf, lengthsOf, before]

theorem Rows.totals {files : List String} {rows : List (FolderComparison × Totals)}
    (each : Rows t oldBase newBase old new files rows) (start : Totals) :
    (rows.map (·.2)).foldl Totals.plus start =
      Totals.plus start (totalsFor old.get? new.get? (rows.map (·.1))) := by
  have assoc : ∀ a b c, Totals.plus (Totals.plus a b) c = Totals.plus a (Totals.plus b c) := by
    intro a b c
    simp only [Totals.plus, Int.add_assoc]
  induction each generalizing start with
  | nil => simp [totalsFor, countsOf, lengthsOf, Totals.plus]
  | cons classified _ ih =>
    rw [List.map_cons, List.foldl_cons, ih, List.map_cons, totals_for_cons, ← assoc,
      ← classified.totals]

/-- Both files of a context file load, and their bundles compare. -/
def ComparesTo (t : FileTree) (oldBase newBase : Location) (file : String) (r : Comparison) : Prop :=
  ∃ a b, t.loadBundles (oldBase.child file).text = .ok a ∧
    t.loadBundles (newBase.child file).text = .ok b ∧ (compareBundles a b).outcome = .ok r

/-- What the folder of a context file says about the entries of both indices. -/
structure Described (t : FileTree) (oldBase newBase : Location) (was now : Option Fields)
    (f : FolderComparison) : Prop where
  added_iff : f.status = .added ↔ was = none ∧ now.isSome
  orphaned_iff : f.status = .orphaned ↔ was.isSome ∧ now = none
  pass_iff : f.status = .pass ↔ was.isSome ∧ now.isSome ∧
    ∃ r, ComparesTo t oldBase newBase f.contextFile r ∧ r.passed = true
  drift_iff : f.status = .drift ↔ was.isSome ∧ now.isSome ∧
    ¬ ∃ r, ComparesTo t oldBase newBase f.contextFile r ∧ r.passed = true
  result_iff : ∀ r, f.result = some r ↔ was.isSome ∧ now.isSome ∧
    ComparesTo t oldBase newBase f.contextFile r
  path_eq : some f.folderPath = (now.or was).map folderPath

theorem Classified.described {file : String} {was now : Option Fields}
    {row : FolderComparison × Totals} (classified : Classified t oldBase newBase file was now row) :
    Described t oldBase newBase was now row.1 := by
  have compares : ∀ r, ComparesTo t oldBase newBase file r ↔
      (compareBundleFiles t (oldBase.child file).text (newBase.child file).text).outcome = .ok r :=
    fun _ => compare_bundle_files_ok_iff.symm
  cases classified with
  | @compared _ _ c done =>
    constructor <;> cases passed : c.passed <;> simp [compares, done, passed]
  | failed stopped reported => constructor <;> simp [compares, stopped]
  | added => constructor <;> simp
  | orphaned => constructor <;> simp

/-- What a comparison of indices reports, given the folders of both indices by context file. -/
structure Reported (t : FileTree) (oldBase newBase : Location) (old new : String → Option Fields)
    (c : IndexComparison) : Prop where
  mem_files : ∀ file, file ∈ c.folders.map (·.contextFile) ↔ (old file).isSome ∨ (new file).isSome
  files_apart : (c.folders.map (·.contextFile)).Nodup
  described : ∀ f ∈ c.folders,
    Described t oldBase newBase (old f.contextFile) (new f.contextFile) f
  paths_ascend : (c.folders.map (·.folderPath)).Pairwise (· ≤ ·)
  totals : c.totals = totalsFor old new c.folders
  mem_orphaned : ∀ file, file ∈ c.orphanedFiles ↔
    (∃ f ∈ c.folders, f.contextFile = file ∧ f.status = .orphaned) ∧
      t.isFile (oldBase.child file) = .ok true
  orphaned_ascend : c.orphanedFiles.Pairwise (· < ·)
  status : Comparison.statusWord c.passed = "PASS" ↔ ∀ f ∈ c.folders, f.status = .pass

theorem mem_gone_files_iff {file : String} :
    file ∈ goneFiles old new ↔ (old.get? file).isSome ∧ new.get? file = none := by
  rw [goneFiles, List.mem_filter, old.mem_keys_iff, new.contains_eq, Option.isSome_iff_exists]
  simp

theorem mem_left_iff {left : List String}
    (asked : (goneFiles old new).filterM (isExistingFile t oldBase) = .ok left) {file : String} :
    file ∈ left ↔ file ∈ goneFiles old new ∧ t.isFile (oldBase.child file) = .ok true := by
  rw [(filter_ok_iff.mp asked).2, List.mem_filter, isExistingFile]
  cases t.isFile (oldBase.child file) <;> simp [Except.mapError, Except.toOption]

theorem summary_reported {rows : List (FolderComparison × Totals)} {left : List String}
    (each : Rows t oldBase newBase old new (contextFiles old new) rows)
    (asked : (goneFiles old new).filterM (isExistingFile t oldBase) = .ok left) :
    Reported t oldBase newBase old.get? new.get? (summary rows left) := by
  have perm : (summary rows left).folders.Perm (rows.map (·.1)) := List.mergeSort_perm _ _
  have files : ((summary rows left).folders.map (·.contextFile)).Perm (contextFiles old new) :=
    each.files ▸ perm.map _
  have described : ∀ f ∈ (summary rows left).folders,
      Described t oldBase newBase (old.get? f.contextFile) (new.get? f.contextFile) f := by
    intro f member
    obtain ⟨totals, classified⟩ := each.classified (perm.mem_iff.mp member)
    exact classified.described
  constructor
  · intro file
    rw [files.mem_iff, mem_context_files_iff, old.mem_keys_iff, new.mem_keys_iff,
      Option.isSome_iff_exists, Option.isSome_iff_exists]
  · exact files.nodup_iff.mpr (context_files_nodup old new)
  · exact described
  · rw [summary, Text.map_sorted_on]
    exact Text.sorted_pairwise _
  · rw [totals_for_perm _ _ perm]
    refine (each.totals {}).trans ?_
    simp [Totals.plus]
  · intro file
    rw [summary, Text.mem_sorted, mem_left_iff asked]
    refine and_congr_left fun _ => ?_
    constructor
    · intro gone
      have either : file ∈ contextFiles old new :=
        mem_context_files_iff.mpr (.inl (List.mem_filter.mp gone).1)
      have listed := files.mem_iff.mpr either
      obtain ⟨f, member, rfl⟩ := List.mem_map.mp listed
      exact ⟨f, member, rfl, (described f member).orphaned_iff.mpr (mem_gone_files_iff.mp gone)⟩
    · rintro ⟨f, member, rfl, orphaned⟩
      exact mem_gone_files_iff.mpr ((described f member).orphaned_iff.mp orphaned)
  · have apart : left.Nodup := by
      rw [(filter_ok_iff.mp asked).2]
      exact (old.keys_nodup.filter _).filter _
    exact Text.sorted_ascending apart
  · rw [Comparison.statusWord, IndexComparison.passed]
    simp

end ProjectIndex

/-- A finished comparison of two indices has one folder for each context file of either index, and
what it says about the folders, the totals and the files that are left is what the last entries of
the context files and the files themselves give. -/
theorem folders_reported {t : FileTree} {p q : String} {c : IndexComparison}
    (done : (ProjectIndex.compare t p q).outcome = .ok c) :
    ∃ oldIndex newIndex, t.loadIndex (Location.ofText p).text = .ok oldIndex ∧
      t.loadIndex (Location.ofText q).text = .ok newIndex ∧
      ProjectIndex.Reported t (Location.ofText p).parent (Location.ofText q).parent
        (ProjectIndex.entryOf? oldIndex) (ProjectIndex.entryOf? newIndex) c := by
  obtain ⟨oldIndex, newIndex, rows, left, first, second, each, asked, rfl⟩ :=
    ProjectIndex.compare_ok_iff.mp done
  refine ⟨oldIndex, newIndex, first, second, ?_⟩
  have reported := ProjectIndex.summary_reported each asked
  rwa [funext (ProjectIndex.get_folders_of oldIndex),
    funext (ProjectIndex.get_folders_of newIndex)] at reported

/-- An index of folders. -/
def listing (folders : List (List (String × Json))) : Fields := [
  (.str "type", .str indexType), (.str "folders", .arr (folders.map Json.record))]

def oldListing : Fields :=
  listing [[("contextFile", .str "b"), ("bundles", .int 2)], [("contextFile", .str "x")]]

def newListing : Fields := listing [[("contextFile", .str "c")], [("contextFile", .str "x")]]

/-- One context file is gone and still there, one is new, and the new file of the third holds no
bundles. The indices named `rest` do not list the third. -/
def mixedFolders : FileTree where
  nodes := .ofList [
    (["old"], .folder),
    (["old", "index"], .file ("\x7b\"type\":\"LogicStampIndex\",\"folders\":[" ++
      "\x7b\"contextFile\":\"b\",\"bundles\":2\x7d,\x7b\"contextFile\":\"x\"\x7d]\x7d").toUTF8),
    (["old", "rest"], .file ("\x7b\"type\":\"LogicStampIndex\",\"folders\":[" ++
      "\x7b\"contextFile\":\"b\",\"bundles\":2\x7d]\x7d").toUTF8),
    (["old", "b"], .file "[]".toUTF8),
    (["old", "x"], .file "[]".toUTF8),
    (["new"], .folder),
    (["new", "index"], .file ("\x7b\"type\":\"LogicStampIndex\",\"folders\":[" ++
      "\x7b\"contextFile\":\"c\"\x7d,\x7b\"contextFile\":\"x\"\x7d]\x7d").toUTF8),
    (["new", "rest"], .file ("\x7b\"type\":\"LogicStampIndex\",\"folders\":[" ++
      "\x7b\"contextFile\":\"c\"\x7d]\x7d").toUTF8),
    (["new", "x"], .file "7".toUTF8)]
  named := by decide +kernel
  closed := by decide +kernel

theorem old_listing_loads :
    mixedFolders.loadIndex (Location.ofText "old/index").text = .ok oldListing := by
  decide +kernel

theorem new_listing_loads :
    mixedFolders.loadIndex (Location.ofText "new/index").text = .ok newListing := by
  decide +kernel

theorem mixed_compared :
    (ProjectIndex.compare mixedFolders "old/index" "new/index").outcome =
      .ok (ProjectIndex.summary [
        (⟨"b", "b", .orphaned, none, none⟩, { removed := 2 }),
        (⟨"x", "x", .drift, none, some "Expected an array of bundles in new/x"⟩, {}),
        (⟨"c", "c", .added, none, none⟩, {})] ["b"]) := by
  have left : (ProjectIndex.goneFiles (ProjectIndex.foldersOf oldListing)
      (ProjectIndex.foldersOf newListing)).filterM (ProjectIndex.isExistingFile mixedFolders
        (Location.ofText "old/index").parent) = .ok ["b"] := by decide +kernel
  have compared : ((ProjectIndex.contextFiles (ProjectIndex.foldersOf oldListing)
      (ProjectIndex.foldersOf newListing)).mapM (ProjectIndex.compareEntry mixedFolders
        (Location.ofText "old/index").parent (Location.ofText "new/index").parent
        (ProjectIndex.foldersOf oldListing) (ProjectIndex.foldersOf newListing))).outcome =
      .ok ([(⟨"b", "b", .orphaned, none, none⟩, { removed := 2 }),
        (⟨"x", "x", .drift, none, some "Expected an array of bundles in new/x"⟩, {}),
        (⟨"c", "c", .added, none, none⟩, {})].map some) := by decide +kernel
  obtain ⟨rows, same, each⟩ := (ProjectIndex.compare_entries_ok_iff fun _ => id).mp compared
  have listed := List.map_injective_iff.mpr (Option.some_injective _) same
  subst listed
  exact ProjectIndex.compare_ok_iff.mpr
    ⟨_, _, _, _, old_listing_loads, new_listing_loads, each, left, rfl⟩

theorem folders_reported_of_mixed :
    ∃ c, (ProjectIndex.compare mixedFolders "old/index" "new/index").outcome = .ok c ∧
      c.totals = ⟨0, 2, 0⟩ ∧
      ProjectIndex.Reported mixedFolders (Location.ofText "old/index").parent
        (Location.ofText "new/index").parent (ProjectIndex.entryOf? oldListing)
        (ProjectIndex.entryOf? newListing) c := by
  obtain ⟨oldIndex, newIndex, first, second, reported⟩ := folders_reported mixed_compared
  have sameOld : oldListing = oldIndex := Except.ok.inj (old_listing_loads.symm.trans first)
  have sameNew : newListing = newIndex := Except.ok.inj (new_listing_loads.symm.trans second)
  subst sameOld sameNew
  exact ⟨_, mixed_compared, rfl, reported⟩

end ContractGraph
