import ContractGraph.Proofs.Files.Below
import ContractGraph.Proofs.Files.Reported

/-!
# Sidecar files

A walk below a folder lists the files with the sidecar suffix whose path from there goes through no
build or vendor folder, each once and in the order of their parts. It is answered unless a path
that it has to ask for is too long, that of a folder or of anything with the suffix, or a folder is
nested too deep to be entered. The contracts of the folder are those of a file that holds the array
of the listed documents.
-/

namespace ContractGraph

set_option autoImplicit false

namespace FileTree

variable {t : FileTree} {root : Location} {folder names : List String} {node : FileNode}

theorem path_at_most_iff {a b : List String} :
    pathAtMost a b = true ↔ ¬List.Lex (· < ·) b a := by
  induction a generalizing b with
  | nil => simp [pathAtMost]
  | cons x xs ih =>
    cases b with
    | nil => simp [pathAtMost]
    | cons y ys =>
      rw [pathAtMost, List.cons_lex_cons_iff]
      by_cases same : x = y
      · simp [same, ih]
      · have first : y < x ↔ y < x ∨ y = x ∧ List.Lex (· < ·) ys xs :=
          ⟨.inl, fun either => either.resolve_right fun equal => same equal.1.symm⟩
        rw [if_neg same, ← first, Text.atMost, decide_eq_true_eq]
        exact String.not_lt.symm

/-- Paths that are all different stand in strictly ascending order. -/
theorem sorted_paths_ascending {paths : List (List String)} (distinct : paths.Nodup) :
    (paths.mergeSort pathAtMost).Pairwise (List.Lex (· < ·)) := by
  have sorts : (paths.mergeSort pathAtMost).Pairwise fun a b => pathAtMost a b = true := by
    apply List.pairwise_mergeSort
    · intro a b c first second
      rw [path_at_most_iff, List.not_lex_lt] at first second ⊢
      exact List.le_trans first second
    · intro a b
      rw [Bool.or_eq_true, path_at_most_iff, path_at_most_iff, List.not_lex_lt, List.not_lex_lt]
      exact List.le_total a b
  have apart : (paths.mergeSort pathAtMost).Nodup :=
    (List.mergeSort_perm paths pathAtMost).nodup_iff.mpr distinct
  refine (List.pairwise_and_iff.mpr ⟨sorts, apart⟩).imp ?_
  rintro a b ⟨atMost, other⟩
  rw [path_at_most_iff, List.not_lex_lt] at atMost
  exact List.lex_lt.mpr ((List.le_iff_lt_or_eq.mp atMost).resolve_right other)

/-- Names that end in the name of a sidecar file. -/
def NamesSidecar (names : List String) : Prop :=
  ∃ stem, names.getLast? = some (stem ++ ".uif.json")

theorem has_sidecar_name_iff : hasSidecarName names = true ↔ NamesSidecar names := by
  rw [hasSidecarName, NamesSidecar]
  cases names.getLast? with
  | none => simp
  | some name =>
    simp only [Option.any_some, List.isSuffixOf_iff_suffix, Option.some.injEq]
    constructor
    · rintro ⟨stem, text⟩
      refine ⟨String.ofList stem, String.toList_inj.mp ?_⟩
      simp [← text, sidecarSuffix]
    · rintro ⟨stem, rfl⟩
      exact ⟨stem.toList, by simp [sidecarSuffix]⟩

/-- No path below a root that a walk has to ask for is too long. -/
def WithinReach (t : FileTree) (root : Location) : Prop :=
  ∀ names node, t.IsBelow root names node → node = .folder ∨ NamesSidecar names →
    (root.under names).text.utf8ByteSize ≤ maxPathLength

/-- No folder below a root is nested too deep for a walk to enter it. -/
def Shallow (t : FileTree) (root : Location) : Prop :=
  ∀ names, t.IsBelow root names .folder → names.length ≤ maxWalkNesting

/-- Names that lead from a root to a sidecar file, through no folder that is skipped. -/
structure IsSidecar (t : FileTree) (root : Location) (names : List String) : Prop where
  file : ∃ content, t.IsBelow root names (.file content)
  named : NamesSidecar names
  kept : ∀ name ∈ names, name ∉ ["node_modules", "dist", "build", ".git", ".next", "coverage"]

/-- The locations are those of the sidecar files below a root, each of them once, in the order of
their parts. -/
structure ListsSidecars (t : FileTree) (root : Location) (files : List Location) : Prop where
  mem : ∀ l, l ∈ files ↔ ∃ names, t.IsSidecar root names ∧ l = root.under names
  ascending : files.Pairwise fun a b => List.Lex (· < ·) a.parts b.parts

theorem is_asked_iff : isAsked names node = true ↔
    node = .folder ∧ names.length ≤ maxWalkNesting ∨
      NamesSidecar names ∧ names.dropLast.length ≤ maxWalkNesting := by
  simp only [isAsked, isEntered, Bool.or_eq_true, Bool.and_eq_true, decide_eq_true_eq,
    has_sidecar_name_iff]

theorem asks_too_far_iff (led : t.follow root = .ok (.inside folder)) :
    t.asksTooFar root folder = false ↔ ∀ names node, t.IsBelow root names node →
      isAsked names node = true → (root.under names).text.utf8ByteSize ≤ maxPathLength := by
  rw [asksTooFar]
  simp only [List.any_eq_false, Option.any_eq_true, not_exists, not_and, Bool.and_eq_true,
    decide_eq_true_eq, Nat.not_lt]
  constructor
  · intro short names node below
    obtain ⟨e, member, rfl, within⟩ := (entry_below_iff led).mpr below
    exact short e member names within
  · intro short e member names within
    exact short names e.2 ((entry_below_iff led).mp ⟨e, member, rfl, within⟩)

theorem goes_too_deep_iff (led : t.follow root = .ok (.inside folder)) :
    t.goesTooDeep folder = false ↔ t.Shallow root := by
  rw [goesTooDeep, Shallow]
  simp only [List.any_eq_false, Option.any_eq_true, not_exists, not_and, Bool.and_eq_true,
    isEntered, Bool.not_eq_true', decide_eq_true_eq, decide_eq_false_iff_not, Decidable.not_not]
  constructor
  · intro near names below
    obtain ⟨e, member, folder, within⟩ := (entry_below_iff led).mpr below
    exact near e member names within folder
  · intro near e member names within folder
    exact near names ((entry_below_iff led).mp ⟨e, member, folder, within⟩)

theorem length_above_of_shallow (led : t.follow root = .ok (.inside folder))
    (shallow : t.Shallow root) (below : t.IsBelow root names node) :
    names.dropLast.length ≤ maxWalkNesting := by
  by_cases top : names.dropLast = []
  · rw [top]
    exact Nat.zero_le maxWalkNesting
  · exact shallow names.dropLast (folder_above led below top)

/-- Where all folders are entered, everything below is asked for that has to be. -/
theorem within_reach_iff (led : t.follow root = .ok (.inside folder)) (shallow : t.Shallow root) :
    t.asksTooFar root folder = false ↔ t.WithinReach root := by
  rw [asks_too_far_iff led, WithinReach]
  refine forall₃_congr fun names node below => ?_
  have asked : isAsked names node = true ↔ node = .folder ∨ NamesSidecar names := by
    rw [is_asked_iff]
    refine or_congr (and_iff_left_of_imp ?_) (and_iff_left ?_)
    · rintro rfl
      exact shallow names below
    · exact length_above_of_shallow led shallow below
  rw [asked]

/-- The names that lead from a folder to the files below it. -/
def filesBelow (t : FileTree) (folder : List String) : List (List String) :=
  t.nodes.entries.filterMap fun e => if e.2 = .folder then none else below folder e.1

/-- The names that lead from a folder to the sidecar files below it, in their order. -/
def sidecarsBelow (t : FileTree) (folder : List String) : List (List String) :=
  ((t.filesBelow folder).filter isSidecarPath).mergeSort pathAtMost

theorem files_below_nodup (t : FileTree) (folder : List String) : (t.filesBelow folder).Nodup := by
  refine t.nodes.distinct.filterMap _ ?_
  intro d e apart names first others second same
  subst same
  split at first
  · cases first
  · split at second
    · cases second
    · have equal : d.1 = e.1 :=
        (below_eq_some_iff.mp first).1.trans (below_eq_some_iff.mp second).1.symm
      simp [equal] at apart

theorem mem_files_below_iff (led : t.follow root = .ok (.inside folder)) :
    names ∈ t.filesBelow folder ↔ ∃ content, t.IsBelow root names (.file content) := by
  simp only [filesBelow, List.mem_filterMap, ← entry_below_iff led]
  constructor
  · rintro ⟨e, member, within⟩
    split at within
    · cases within
    · cases node : e.2 with
      | folder => contradiction
      | file content => exact ⟨content, e, member, node, within⟩
  · rintro ⟨content, e, member, node, within⟩
    exact ⟨e, member, by simp [node, within]⟩

theorem mem_sidecars_below_iff (led : t.follow root = .ok (.inside folder)) :
    names ∈ t.sidecarsBelow folder ↔ t.IsSidecar root names := by
  have chosen : isSidecarPath names = true ↔ NamesSidecar names ∧ ∀ name ∈ names,
      name ∉ ["node_modules", "dist", "build", ".git", ".next", "coverage"] := by
    rw [isSidecarPath, Bool.and_eq_true, has_sidecar_name_iff, List.all_eq_true]
    simp [skippedFolders]
  rw [sidecarsBelow, List.mem_mergeSort, List.mem_filter, mem_files_below_iff led, chosen]
  constructor
  · rintro ⟨file, named, kept⟩
    exact ⟨file, named, kept⟩
  · rintro ⟨file, named, kept⟩
    exact ⟨file, named, kept⟩

theorem sidecars_below_listed (led : t.follow root = .ok (.inside folder)) :
    t.ListsSidecars root ((t.sidecarsBelow folder).map root.under) where
  mem := by
    intro l
    simp only [List.mem_map, mem_sidecars_below_iff led, eq_comm]
  ascending := by
    have distinct := (t.files_below_nodup folder).filter isSidecarPath
    refine (sorted_paths_ascending distinct).map _ ?_
    intro a b less
    exact List.lex_lt.mpr (List.append_left_lt (List.lex_lt.mp less))

theorem find_sidecars_inside (asked : t.isFolder root = .ok true)
    (led : t.follow root = .ok (.inside folder)) :
    t.findSidecars root = if t.asksTooFar root folder then .error (.system .nameTooLong)
      else if t.goesTooDeep folder then .error .foldersTooDeep
      else .ok ((t.sidecarsBelow folder).map root.under) := by
  rw [findSidecars, asked, led]
  rfl

theorem find_sidecars_root (asked : t.isFolder root = .ok true)
    (led : t.follow root = .ok .root) : t.findSidecars root = .ok [] := by
  rw [findSidecars, asked, led]

theorem led_of_folder (asked : t.isFolder root = .ok true) : ∃ spot, t.follow root = .ok spot := by
  cases led : t.follow root with
  | ok spot => exact ⟨spot, rfl⟩
  | error e =>
    have missed : ∀ node, t.find root ≠ .ok node := by
      intro node found
      rw [find, led] at found
      split at found
      · cases found
      · split at found <;> cases found
    rw [isFolder] at asked
    split at asked
    · next node found => exact absurd found (missed node)
    · split at asked <;> cases asked
    · cases asked

/-- Nothing that is known stands below the root of all files. -/
theorem nothing_listed_at_root (led : t.follow root = .ok .root) :
    (t.WithinReach root ∧ t.Shallow root) ∧ t.ListsSidecars root [] := by
  have none : ∀ names node, ¬t.IsBelow root names node := fun names node => not_below_root led
  refine ⟨⟨fun names node below => absurd below (none names node),
    fun names below => absurd below (none names .folder)⟩, ?_, .nil⟩
  intro l
  simp only [List.not_mem_nil, false_iff]
  rintro ⟨names, ⟨⟨content, below⟩, -, -⟩, -⟩
  exact none names (.file content) below

/-- A walk below a folder is answered when its paths are within reach and its folders not too deep,
and lists the sidecars. -/
theorem find_sidecars_iff (asked : t.isFolder root = .ok true) :
    ((∃ files, t.findSidecars root = .ok files) ↔ t.WithinReach root ∧ t.Shallow root) ∧
      ∀ files, t.findSidecars root = .ok files → t.ListsSidecars root files := by
  obtain ⟨spot, led⟩ := led_of_folder asked
  cases spot with
  | root =>
    obtain ⟨reach, listed⟩ := nothing_listed_at_root led
    rw [find_sidecars_root asked led]
    refine ⟨iff_of_true ⟨[], rfl⟩ reach, ?_⟩
    intro files done
    cases done
    exact listed
  | inside folder =>
    have walks : t.asksTooFar root folder = false ∧ t.goesTooDeep folder = false ↔
        t.WithinReach root ∧ t.Shallow root := by
      rw [goes_too_deep_iff led]
      exact and_congr_left fun shallow => within_reach_iff led shallow
    rw [find_sidecars_inside asked led, ← walks]
    cases far : t.asksTooFar root folder with
    | true => simp
    | false =>
      cases deep : t.goesTooDeep folder with
      | true => simp
      | false =>
        refine ⟨by simp, ?_⟩
        intro files done
        cases done
        exact sidecars_below_listed led

/-- A location of a file whose text is that of a document. -/
def Holds (t : FileTree) (l : Location) (d : Json) : Prop :=
  ∃ content text, t.find l = .ok (.file content) ∧ decodeText? content = some text ∧
    Json.read text = .ok d

theorem read_of_holds {l : Location} {d : Json} (holds : t.Holds l d) :
    t.readDocument l = .ok d := by
  obtain ⟨content, text, found, decoded, read⟩ := holds
  simp [readDocument, readText, readBytes, found, decoded, read]

theorem read_each_of_holds {files : List Location} {documents : List Json}
    (holds : List.Forall₂ t.Holds files documents) :
    (files.mapM fun l => (t.readDocument l).map fun d => (l, d)) = .ok (files.zip documents) := by
  rw [map_ok_iff]
  induction holds with
  | nil => exact .nil
  | cons here _ ih => exact .cons (by rw [read_of_holds here]; rfl) ih

theorem file_of_holds {l : Location} {d : Json} (holds : t.Holds l d) :
    t.isFolder l = .ok false := by
  obtain ⟨content, text, found, -⟩ := holds
  simp [isFolder, found]

/-- Contracts are read from the documents alone, wherever these come from. -/
theorem contracts_of_documents {rows : List (Location × Json)} {contracts : List Contract} :
    rows.mapM contractOf = .ok contracts ↔
      (rows.map (·.2)).mapM Contract.ofDocument = .ok contracts := by
  have each : ∀ row contract,
      contractOf row = .ok contract ↔ Contract.ofDocument row.2 = .ok contract := by
    intro row contract
    rw [contractOf]
    cases Contract.ofDocument row.2 <;> simp [Except.mapError]
  rw [map_ok_iff, map_ok_iff, List.forall₂_map_left_iff]
  simp only [each]

theorem folder_contracts {path : String} {files : List Location} {documents : List Json}
    (asked : t.isFolder (.ofText path) = .ok true)
    (listed : t.findSidecars (.ofText path) = .ok files)
    (holds : List.Forall₂ t.Holds files documents) {contracts : List Contract} :
    (t.loadContracts path).outcome = .ok contracts ↔
      documents.mapM Contract.ofDocument = .ok contracts := by
  have rows : t.contractDocuments (.ofText path) = .ok (files.zip documents) := by
    simp only [contractDocuments, asked, listed]
    exact read_each_of_holds holds
  rw [load_contracts_outcome, rows]
  refine contracts_of_documents.trans ?_
  rw [List.map_snd_zip (Nat.le_of_eq holds.length_eq.symm)]

theorem list_contracts {path : String} {documents : List Json}
    (holds : t.Holds (.ofText path) (.arr documents)) {contracts : List Contract} :
    (t.loadContracts path).outcome = .ok contracts ↔
      documents.mapM Contract.ofDocument = .ok contracts := by
  have rows : t.contractDocuments (.ofText path) =
      .ok (documents.map fun item => (.ofText path, item)) := by
    rw [contractDocuments, file_of_holds holds, read_of_holds holds]
    rfl
  rw [load_contracts_outcome, rows]
  refine contracts_of_documents.trans ?_
  have same : (documents.map fun item => (Location.ofText path, item)).map (·.2) = documents := by
    rw [List.map_map]
    exact List.map_id documents
  rw [same]

/-- Looking for the sidecar files below a folder succeeds exactly when no path that has to be asked
for is too long and no folder is nested too deep, and lists exactly those files. Where all of them
hold documents, the contracts of the folder are those of any file that holds the array of these. -/
theorem folder_loads_as_list (t : FileTree) (path : String)
    (folder : t.isFolder (.ofText path) = .ok true) :
    ((∃ files, t.findSidecars (.ofText path) = .ok files) ↔
        t.WithinReach (.ofText path) ∧ t.Shallow (.ofText path)) ∧
      ∀ files, t.findSidecars (.ofText path) = .ok files →
        t.ListsSidecars (.ofText path) files ∧
        ∀ documents, List.Forall₂ t.Holds files documents →
          ∀ (t' : FileTree) (list : String), t'.Holds (.ofText list) (.arr documents) →
            ∀ contracts, (t.loadContracts path).outcome = .ok contracts ↔
              (t'.loadContracts list).outcome = .ok contracts := by
  obtain ⟨answered, lists⟩ := find_sidecars_iff folder
  refine ⟨answered, fun files listed => ⟨lists files listed, ?_⟩⟩
  intro documents holds t' list whole contracts
  rw [folder_contracts folder listed holds, list_contracts whole]

end FileTree

/-- A folder with two sidecar files, one of them in a folder that has the suffix too, and with one
more that is skipped; beside it a file with the array of the two documents. -/
def sidecarFolder : FileTree where
  nodes := .ofList [
    (["src"], .folder),
    (["src", "a.uif.json"], .folder),
    (["src", "a.uif.json", "z.uif.json"], .file "\x7b\"entryId\": \"a\"\x7d".toUTF8),
    (["src", "b.uif.json"], .file "\x7b\"entryId\": \"b\"\x7d".toUTF8),
    (["src", "dist"], .folder),
    (["src", "dist", "c.uif.json"], .file "broken".toUTF8),
    (["all.json"], .file "[\x7b\"entryId\": \"a\"\x7d, \x7b\"entryId\": \"b\"\x7d]".toUTF8)]
  named := by decide +kernel
  closed := by decide +kernel

theorem folder_loads_as_list_of_nested :
    sidecarFolder.isFolder (.ofText "src") = .ok true ∧
      sidecarFolder.WithinReach (.ofText "src") ∧ sidecarFolder.Shallow (.ofText "src") ∧
      sidecarFolder.ListsSidecars (.ofText "src")
        [⟨0, ["src", "a.uif.json", "z.uif.json"]⟩, ⟨0, ["src", "b.uif.json"]⟩] ∧
      ∃ contracts, (sidecarFolder.loadContracts "src").outcome = .ok contracts ∧
        contracts.map (·.entryId) = ["a", "b"] := by
  have folder : sidecarFolder.isFolder (.ofText "src") = .ok true := by decide +kernel
  have listed : sidecarFolder.findSidecars (.ofText "src") =
      .ok [⟨0, ["src", "a.uif.json", "z.uif.json"]⟩, ⟨0, ["src", "b.uif.json"]⟩] := by
    have led : sidecarFolder.follow (.ofText "src") = .ok (.inside ["src"]) := by decide +kernel
    have near : sidecarFolder.asksTooFar (.ofText "src") ["src"] = false := by decide +kernel
    have shallow : sidecarFolder.goesTooDeep ["src"] = false := by decide +kernel
    have chosen : (sidecarFolder.filesBelow ["src"]).filter FileTree.isSidecarPath =
        [["a.uif.json", "z.uif.json"], ["b.uif.json"]] := by decide +kernel
    have sorted : sidecarFolder.sidecarsBelow ["src"] =
        [["a.uif.json", "z.uif.json"], ["b.uif.json"]] := by
      rw [FileTree.sidecarsBelow, chosen]
      exact List.mergeSort_of_pairwise (by decide +kernel)
    rw [FileTree.find_sidecars_inside folder led, near, shallow, sorted]
    decide +kernel
  have first : sidecarFolder.Holds ⟨0, ["src", "a.uif.json", "z.uif.json"]⟩
      (.obj [(.str "entryId", .str "a")]) :=
    ⟨_, "\x7b\"entryId\": \"a\"\x7d", by rfl, by decide +kernel, by decide +kernel⟩
  have second : sidecarFolder.Holds ⟨0, ["src", "b.uif.json"]⟩
      (.obj [(.str "entryId", .str "b")]) :=
    ⟨_, "\x7b\"entryId\": \"b\"\x7d", by rfl, by decide +kernel, by decide +kernel⟩
  have whole : sidecarFolder.Holds (.ofText "all.json")
      (.arr [.obj [(.str "entryId", .str "a")], .obj [(.str "entryId", .str "b")]]) :=
    ⟨_, "[\x7b\"entryId\": \"a\"\x7d, \x7b\"entryId\": \"b\"\x7d]", by rfl, by decide +kernel,
      by decide +kernel⟩
  obtain ⟨answered, lists⟩ := FileTree.folder_loads_as_list sidecarFolder "src" folder
  obtain ⟨lists, same⟩ := lists _ listed
  have read : (sidecarFolder.loadContracts "all.json").outcome.map (·.map (·.entryId)) =
      .ok ["a", "b"] := by decide +kernel
  obtain ⟨contracts, loaded, ids⟩ := ok_of_map read
  have alike := same _ (.cons first (.cons second .nil)) sidecarFolder "all.json" whole contracts
  obtain ⟨reach, shallow⟩ := answered.mp ⟨_, listed⟩
  exact ⟨folder, reach, shallow, lists, contracts, alike.mpr loaded, ids⟩

/-- A folder with one sidecar file. -/
def oneSidecar : FileTree where
  nodes := .ofList [(["d"], .folder), (["d", "x.uif.json"], .file "\x7b\x7d".toUTF8)]
  named := by decide +kernel
  closed := by decide +kernel

/-- A path into the folder that leaves it and comes back so many times. -/
def roundabout : Nat → Location
  | 0 => ⟨0, ["d"]⟩
  | turns + 1 => ⟨0, "d" :: ".." :: (roundabout turns).parts⟩

theorem roundabout_slashes (turns : Nat) : (roundabout turns).slashes = 0 := by
  cases turns <;> rfl

theorem roundabout_clear (turns : Nat) : (roundabout turns).hasNul = false := by
  induction turns with
  | zero => decide
  | succ turns ih =>
    rw [Location.hasNul] at ih
    rw [roundabout, Location.hasNul, List.any_cons, List.any_cons, ih]
    decide

theorem roundabout_text (turns : Nat) (names : List String) :
    ((roundabout (turns + 1)).under names).text =
      "d/../" ++ ((roundabout turns).under names).text := by
  obtain ⟨rest, parts⟩ : ∃ rest, (roundabout turns).parts = "d" :: rest := by
    cases turns <;> exact ⟨_, rfl⟩
  simp only [roundabout, Location.under, Location.text, roundabout_slashes, parts,
    List.cons_append, reduceCtorEq, and_false, if_false, List.map_cons, Text.join,
    List.replicate_zero, List.nil_append]
  simp [← String.toList_inj]

theorem roundabout_length (turns : Nat) (names : List String) :
    ((roundabout turns).under names).text.utf8ByteSize =
      5 * turns + (Location.mk 0 ("d" :: names)).text.utf8ByteSize := by
  induction turns with
  | zero => simp [roundabout, Location.under]
  | succ turns ih =>
    have turn : "d/../".utf8ByteSize = 5 := by decide
    rw [roundabout_text, String.utf8ByteSize_append, ih, turn]
    omega

theorem roundabout_leads (turns : Nat) :
    oneSidecar.follow (roundabout turns) = .ok (.inside ["d"]) := by
  induction turns with
  | zero => decide +kernel
  | succ turns ih =>
    rw [FileTree.follow, FileTree.start, roundabout_slashes] at ih ⊢
    exact ih

theorem roundabout_folder {turns : Nat} (near : 5 * turns + 1 ≤ maxPathLength) :
    oneSidecar.isFolder (roundabout turns) = .ok true := by
  have short : (roundabout turns).text.utf8ByteSize = 5 * turns + 1 := by
    have length := roundabout_length turns []
    rw [Location.under, List.append_nil] at length
    exact length
  have found : oneSidecar.find (roundabout turns) = .ok .folder := by
    rw [FileTree.find, roundabout_clear, short, if_neg (Nat.not_lt.mpr near), roundabout_leads]
    decide +kernel
  rw [FileTree.isFolder, found]
  rfl

/-- A folder is not walked when its path is so long that a file in it cannot be asked for. -/
theorem far_sidecar_unlisted : oneSidecar.isFolder (roundabout 818) = .ok true ∧
    oneSidecar.IsSidecar (roundabout 818) ["x.uif.json"] ∧
    oneSidecar.findSidecars (roundabout 818) = .error (.system .nameTooLong) := by
  have folder : oneSidecar.isFolder (roundabout 818) = .ok true := roundabout_folder (by decide)
  have led := roundabout_leads 818
  have file : oneSidecar.IsBelow (roundabout 818) ["x.uif.json"] (.file "\x7b\x7d".toUTF8) :=
    (FileTree.is_below_iff led).mpr ⟨by decide, by decide +kernel, by decide +kernel⟩
  have named : FileTree.NamesSidecar ["x.uif.json"] := ⟨"x", by decide⟩
  -- The path of the folder has 4091 bytes, that of the file 11 more.
  have far : oneSidecar.asksTooFar (roundabout 818) ["d"] = true := by
    apply Bool.of_not_eq_false
    intro near
    have short := (FileTree.asks_too_far_iff led).mp near _ _ file (by decide)
    rw [roundabout_length] at short
    exact absurd short (by decide +kernel)
  refine ⟨folder, ⟨⟨_, file⟩, named, by decide⟩, ?_⟩
  rw [FileTree.find_sidecars_inside folder led, far]
  rfl

end ContractGraph
