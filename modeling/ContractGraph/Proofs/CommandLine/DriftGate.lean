import ContractGraph.CommandLine.Run
import ContractGraph.Proofs.Drift.Folders

/-!
# The drift gate

A comparison on the command line ends with status zero when what it compares is the same, and with
status one in every other case: something drifted, a document cannot be loaded, or the comparison
or the writing of its result ends with a fault. The switches may stand anywhere among the two paths
and change neither.
-/

namespace ContractGraph.CommandLine

set_option autoImplicit false

/-- A word that gives a switch of the options and nothing else. -/
structure IsSwitch (options : List OptionSpec) (word : String) : Prop where
  notEnd : word ≠ "--"
  optional : isOptionWord word = true
  alone : readWord options word = .ok { given := [⟨word, word⟩] }

/-- Words of which each is a switch or an argument are the switches and the arguments, each in their
order. -/
theorem parse_switches {options : List OptionSpec} {switches words : List String}
    (each : ∀ word ∈ switches, IsSwitch options word)
    (others : ∀ word ∈ words, word ∉ switches → isOptionWord word = false) :
    parse options true words = .ok {
      given := (words.filter (switches.contains ·)).map fun word => ⟨word, word⟩
      arguments := words.filter (!switches.contains ·) } := by
  induction words with
  | nil => rfl
  | cons word rest ih =>
    have later := ih fun other member => others other (List.mem_cons_of_mem word member)
    by_cases switch : word ∈ switches
    · obtain ⟨notEnd, optional, alone⟩ := each word switch
      unfold parse
      rw [if_neg notEnd, if_pos optional, alone]
      simp [later, switch, Except.map, Parsed.addGiven]
    · have plain := others word List.mem_cons_self switch
      have notEnd : word ≠ "--" := by
        rintro rfl
        exact absurd plain (by decide)
      unfold parse
      rw [if_neg notEnd, plain]
      simp [later, switch, Except.map, Parsed.addArgument]

def compareSwitches : List String := ["--json", "--index"]

/-- The switches among words, as options that were given. -/
def switchesIn (words : List String) : List Given :=
  (words.filter (compareSwitches.contains ·)).map fun word => ⟨word, word⟩

/-- The words behind the command: two paths, and the switches anywhere among them. -/
structure CompareWords (old new : String) (words : List String) : Prop where
  arguments : words.filter (!compareSwitches.contains ·) = [old, new]
  old_plain : isOptionWord old = false
  new_plain : isOptionWord new = false

theorem compare_switches_alone (word : String) (member : word ∈ compareSwitches) :
    IsSwitch (compareOptions ++ [OptionSpec.help]) word := by
  have alone : ∀ word ∈ compareSwitches, word ≠ "--" ∧ isOptionWord word = true ∧
      readWord (compareOptions ++ [OptionSpec.help]) word = .ok { given := [⟨word, word⟩] } := by
    decide
  obtain ⟨notEnd, optional, alone⟩ := alone word member
  exact ⟨notEnd, optional, alone⟩

namespace CompareWords

variable {old new : String} {words : List String}

theorem parsed (w : CompareWords old new words) :
    parse (compareOptions ++ [OptionSpec.help]) true words = .ok {
      given := switchesIn words
      arguments := [old, new] } := by
  rw [← w.arguments]
  refine parse_switches compare_switches_alone ?_
  intro word member other
  have argument : word ∈ words.filter (!compareSwitches.contains ·) := by
    simp [member, other]
  rw [w.arguments] at argument
  rcases List.mem_cons.mp argument with rfl | last
  · exact w.old_plain
  · rw [List.mem_singleton.mp last]
    exact w.new_plain

end CompareWords

/-- A command whose options are switches starts with the given options and arguments as they are, if
the arguments fit. -/
theorem values_of_switches {t : FileTree} {spec : CommandSpec} {p : Parsed}
    (switches : ∀ o ∈ spec.options, o.form = .switch)
    (fit : checkArguments t spec.arguments p.arguments = .ok ())
    (whole : p.arguments.length = spec.arguments.length) :
    valuesOf t spec p = .ok ⟨p.given, p.arguments⟩ := by
  have others : ∀ o ∈ spec.options.filter (!p.isGiven ·), o.form = .switch :=
    fun o member => switches o (List.mem_filter.mp member).1
  have given : ∀ o ∈ p.givenOptions spec.options, o.form = .switch := by
    intro o member
    obtain ⟨long, -, found⟩ := List.mem_filterMap.mp member
    exact switches o (List.mem_of_find?_eq_some found)
  have checked : ∀ (options : List OptionSpec) (v : Values), (∀ o ∈ options, o.form = .switch) →
      options.forM (checkOption t v) = .ok () := by
    intro options v each
    refine for_each_ok ?_
    intro o member
    rw [checkOption, each o member]
  have defaults : (spec.options.filter (!p.isGiven ·)).filterMap defaultOf = [] := by
    refine List.filterMap_eq_nil_iff.mpr ?_
    intro o member
    rw [defaultOf, others o member]
  rw [valuesOf, defaults]
  simp only [checked _ _ given, checked _ _ others, fit, ← whole, List.drop_length]
  rfl

namespace CompareWords

variable {old new : String} {words : List String} {t : FileTree} {content content' : ByteArray}

theorem is_on {switch : String} (member : switch ∈ compareSwitches) (arguments : List String) :
    Values.isOn ⟨switchesIn words, arguments⟩ switch = words.contains switch := by
  rw [Bool.eq_iff_iff, Values.isOn, Values.last?, Option.isSome_map, List.find?_isSome]
  simp [switchesIn, member]

theorem no_help_asked (words arguments : List String) :
    Parsed.isGiven ⟨switchesIn words, arguments⟩ .help = false := by
  have other : "--help" ∉ compareSwitches := by decide
  rw [Parsed.isGiven, List.any_eq_false]
  intro g member asked
  obtain ⟨word, listed, rfl⟩ := List.mem_map.mp member
  have help : word = "--help" := of_decide_eq_true asked
  rw [help, List.mem_filter, List.contains_iff_mem] at listed
  exact other listed.2

/-- The words are read as the comparison of the two paths. -/
theorem command_reading (w : CompareWords old new words)
    (there : t.findText old = .ok (.file content))
    (there' : t.findText new = .ok (.file content')) (s : Settings) (log : LogSettings) :
    Reading.ofCommandWords s t log .compare words =
      .command log (.compare old new (words.contains "--json") (words.contains "--index")) := by
  have switches : ∀ o ∈ (CommandName.compare.spec s).options, o.form = .switch := by
    change ∀ o ∈ compareOptions, o.form = .switch
    decide
  have fit : checkArguments t (CommandName.compare.spec s).arguments [old, new] = .ok () := by
    simp [CommandName.spec, checkArguments, checkValue, checkPath, there, there']
    rfl
  have values : valuesOf t (CommandName.compare.spec s) ⟨switchesIn words, [old, new]⟩ = _ :=
    values_of_switches switches fit rfl
  have parsed : parse ((CommandName.compare.spec s).options ++ [OptionSpec.help]) true words = _ :=
    w.parsed
  rw [Reading.ofCommandWords]
  simp only [parsed, no_help_asked, values, CommandName.command, Bool.false_eq_true, if_false]
  rw [is_on (by decide), is_on (by decide)]
  rfl

/-- The command line is read as the comparison of the two paths, if the level of the log is known. -/
theorem reading (w : CompareWords old new words) (there : t.findText old = .ok (.file content))
    (there' : t.findText new = .ok (.file content')) (environment : List (String × String)) :
    Reading.ofWords environment t ("compare" :: words) =
      match LogSettings.ofEnvironment false environment with
      | .error fault => .failed fault
      | .ok log =>
        .command log (.compare old new (words.contains "--json") (words.contains "--index")) := by
  have parsed : Reading.parseProgram (programSpec (.ofEnvironment environment))
      ("compare" :: words) = .ok { arguments := "compare" :: words } := rfl
  have noHelp : Parsed.isGiven { arguments := "compare" :: words } .help = false := rfl
  have quiet : Parsed.isGiven { arguments := "compare" :: words } verboseOption = false := rfl
  have named : CommandName.ofWord? "compare" = some .compare := by decide
  rw [Reading.ofWords]
  cases level : LogSettings.ofEnvironment false environment <;>
    simp only [parsed, noHelp, quiet, named, w.command_reading there there', level,
      Bool.false_eq_true, if_false, reduceCtorEq]

end CompareWords

theorem Report.of_logged_status {α : Type} (t : FileTree) (x : Logged α) (report : α → Report) :
    (Report.ofLogged t x report).status =
      match x.outcome with
      | .ok a => (report a).status
      | .error _ => 1 := by
  rw [Report.ofLogged]
  cases x.outcome with
  | ok a => rfl
  | error e =>
    simp only [Report.ofFault]
    split <;> rfl

theorem drift_status_iff (passed : Bool) : driftStatus passed = 0 ↔ passed = true := by
  cases passed <;> simp [driftStatus]

/-- Both files hold bundles that can be indexed, and the two mappings from ids to signatures are
equal. -/
def SameBundles (t : FileTree) (old new : String) : Prop :=
  ∃ a b s s', t.loadBundles old = .ok a ∧ t.loadBundles new = .ok b ∧
    (Snapshot.ofBundles a).outcome = .ok s ∧ (Snapshot.ofBundles b).outcome = .ok s' ∧
    s.SameMapping s'

/-- Each folder of one of two indices is a folder of the other as well, with the same bundles. -/
def SameFolders (t : FileTree) (oldBase newBase : Location) (old new : String → Option Fields) :
    Prop :=
  ∀ file, (old file).isSome ∨ (new file).isSome → (old file).isSome ∧ (new file).isSome ∧
    SameBundles t (oldBase.child file).text (newBase.child file).text

/-- Both files hold indices, the indices can be compared, and they have the same folders. -/
def SameIndices (t : FileTree) (old new : String) : Prop :=
  (∃ c, (ProjectIndex.compare t old new).outcome = .ok c) ∧
    ∃ oldIndex newIndex, t.loadIndex (Location.ofText old).text = .ok oldIndex ∧
      t.loadIndex (Location.ofText new).text = .ok newIndex ∧
      SameFolders t (Location.ofText old).parent (Location.ofText new).parent
        (ProjectIndex.entryOf? oldIndex) (ProjectIndex.entryOf? newIndex)

theorem same_bundles_iff {t : FileTree} {old new : String} : SameBundles t old new ↔
    ∃ a b r, t.loadBundles old = .ok a ∧ t.loadBundles new = .ok b ∧
      (compareBundles a b).outcome = .ok r ∧ r.passed = true := by
  constructor
  · rintro ⟨a, b, s, s', first, second, before, after, same⟩
    have compared := compare_bundles_ok_iff.mpr ⟨s, s', before, after, rfl⟩
    exact ⟨a, b, s.compare s', first, second, compared, (Snapshot.passed_iff s s').mpr same⟩
  · rintro ⟨a, b, r, first, second, compared, passed⟩
    obtain ⟨s, s', before, after, rfl⟩ := compare_bundles_ok_iff.mp compared
    exact ⟨a, b, s, s', first, second, before, after, (Snapshot.passed_iff s s').mp passed⟩

theorem bundles_passed_iff {t : FileTree} {old new : String} :
    (∃ r, (compareBundleFiles t old new).outcome = .ok r ∧ r.passed = true) ↔
      SameBundles t old new := by
  rw [same_bundles_iff]
  constructor
  · rintro ⟨r, compared, passed⟩
    obtain ⟨a, b, first, second, compared⟩ := compare_bundle_files_ok_iff.mp compared
    exact ⟨a, b, r, first, second, compared, passed⟩
  · rintro ⟨a, b, r, first, second, compared, passed⟩
    exact ⟨r, compare_bundle_files_ok_iff.mpr ⟨a, b, first, second, compared⟩, passed⟩

theorem compares_to_passed_iff {t : FileTree} {oldBase newBase : Location} {file : String} :
    (∃ r, ProjectIndex.ComparesTo t oldBase newBase file r ∧ r.passed = true) ↔
      SameBundles t (oldBase.child file).text (newBase.child file).text := by
  rw [same_bundles_iff]
  constructor
  · rintro ⟨r, ⟨a, b, first, second, compared⟩, passed⟩
    exact ⟨a, b, r, first, second, compared, passed⟩
  · rintro ⟨a, b, r, first, second, compared, passed⟩
    exact ⟨r, ⟨a, b, first, second, compared⟩, passed⟩

theorem folders_passed_iff {t : FileTree} {oldBase newBase : Location}
    {old new : String → Option Fields} {c : IndexComparison}
    (reported : ProjectIndex.Reported t oldBase newBase old new c) :
    c.passed = true ↔ SameFolders t oldBase newBase old new := by
  have pass : ∀ f ∈ c.folders, f.status = .pass ↔ (old f.contextFile).isSome ∧
      (new f.contextFile).isSome ∧ SameBundles t (oldBase.child f.contextFile).text
        (newBase.child f.contextFile).text := by
    intro f member
    rw [(reported.described f member).pass_iff, compares_to_passed_iff]
  rw [IndexComparison.passed, List.all_eq_true]
  simp only [decide_eq_true_eq]
  constructor
  · intro each file listed
    obtain ⟨f, member, rfl⟩ := List.mem_map.mp ((reported.mem_files file).mpr listed)
    exact (pass f member).mp (each f member)
  · intro same f member
    have listed := (reported.mem_files f.contextFile).mp (List.mem_map.mpr ⟨f, member, rfl⟩)
    exact (pass f member).mpr (same f.contextFile listed)

theorem indices_passed_iff {t : FileTree} {old new : String} :
    (∃ c, (ProjectIndex.compare t old new).outcome = .ok c ∧ c.passed = true) ↔
      SameIndices t old new := by
  have passed_iff : ∀ {oldIndex newIndex rows left},
      ProjectIndex.Rows t (Location.ofText old).parent (Location.ofText new).parent
        (ProjectIndex.foldersOf oldIndex) (ProjectIndex.foldersOf newIndex)
        (ProjectIndex.contextFiles (ProjectIndex.foldersOf oldIndex)
          (ProjectIndex.foldersOf newIndex)) rows →
      (ProjectIndex.goneFiles (ProjectIndex.foldersOf oldIndex)
          (ProjectIndex.foldersOf newIndex)).filterM
        (ProjectIndex.isExistingFile t (Location.ofText old).parent) = .ok left →
      ((ProjectIndex.summary rows left).passed = true ↔
        SameFolders t (Location.ofText old).parent (Location.ofText new).parent
          (ProjectIndex.entryOf? oldIndex) (ProjectIndex.entryOf? newIndex)) := by
    intro oldIndex newIndex rows left each asked
    rw [folders_passed_iff (ProjectIndex.summary_reported each asked),
      funext (ProjectIndex.get_folders_of oldIndex), funext (ProjectIndex.get_folders_of newIndex)]
  constructor
  · rintro ⟨c, done, passed⟩
    obtain ⟨oldIndex, newIndex, rows, left, first, second, each, asked, rfl⟩ :=
      ProjectIndex.compare_ok_iff.mp done
    exact ⟨⟨_, done⟩, oldIndex, newIndex, first, second, (passed_iff each asked).mp passed⟩
  · rintro ⟨⟨c, done⟩, oldIndex, newIndex, first, second, same⟩
    obtain ⟨_, _, rows, left, first', second', each, asked, rfl⟩ :=
      ProjectIndex.compare_ok_iff.mp done
    cases first.symm.trans first'
    cases second.symm.trans second'
    exact ⟨_, done, (passed_iff each asked).mpr same⟩

/-- A context file that passes adds nothing to the totals. -/
theorem totals_of_pass {t : FileTree} {oldBase newBase : Location} {file : String}
    {was now : Option Fields} {row : FolderComparison × Totals}
    (classified : ProjectIndex.Classified t oldBase newBase file was now row)
    (pass : row.1.status = .pass) : row.2 = {} := by
  cases classified with
  | @compared _ _ r done =>
    have passed : r.passed = true := by
      by_contra drifted
      simp [drifted] at pass
    simp only [Comparison.passed, Bool.and_eq_true, List.isEmpty_iff] at passed
    simp [ProjectIndex.totalsOf, passed]
  | failed => cases pass
  | added => cases pass
  | orphaned => cases pass

theorem totals_of_passed {t : FileTree} {oldBase newBase : Location}
    {old new : Table String Fields} {files : List String} {rows : List (FolderComparison × Totals)}
    (each : ProjectIndex.Rows t oldBase newBase old new files rows)
    (pass : ∀ row ∈ rows, row.1.status = .pass) :
    (rows.map (·.2)).foldl ProjectIndex.Totals.plus {} = {} := by
  induction each with
  | nil => rfl
  | cons classified _ ih =>
    rw [List.forall_mem_cons] at pass
    rw [List.map_cons, List.foldl_cons, totals_of_pass classified pass.1]
    exact ih pass.2

/-- A comparison of indices that passes can be written. -/
theorem shown_of_passed {t : FileTree} {old new : String} {c : IndexComparison}
    (done : (ProjectIndex.compare t old new).outcome = .ok c) (passed : c.passed = true) :
    c.shown = .ok c.toValue := by
  obtain ⟨_, _, rows, left, -, -, each, -, rfl⟩ := ProjectIndex.compare_ok_iff.mp done
  have pass : ∀ row ∈ rows, row.1.status = .pass := by
    intro row member
    rw [IndexComparison.passed, List.all_eq_true] at passed
    refine of_decide_eq_true (passed row.1 ?_)
    exact (List.mergeSort_perm _ _).mem_iff.mpr (List.mem_map_of_mem member)
  have nothing : (ProjectIndex.summary rows left).totals = {} := totals_of_passed each pass
  rw [IndexComparison.shown, nothing]
  rfl

theorem bundles_status_iff (now : String) (t : FileTree) (old new : String) (asJson : Bool) :
    ((Command.compare old new asJson false).run now t).status = 0 ↔ SameBundles t old new := by
  rw [← bundles_passed_iff, Command.run, Report.of_logged_status]
  cases (compareBundleFiles t old new).outcome <;> simp [reportComparison, drift_status_iff]

theorem indices_status_iff (now : String) (t : FileTree) (old new : String) (asJson : Bool) :
    ((Command.compare old new asJson true).run now t).status = 0 ↔ SameIndices t old new := by
  rw [← indices_passed_iff, Command.run, Report.of_logged_status]
  cases done : (ProjectIndex.compare t old new).outcome with
  | error e => simp
  | ok c =>
    by_cases passed : c.passed = true
    · simp [reportIndexComparison, shown_of_passed done passed, drift_status_iff, passed]
    · cases shown : c.shown <;> simp [reportIndexComparison, shown, drift_status_iff, passed]

/-- A comparison ends with no other status than zero or one. -/
theorem compare_status_le (now : String) (t : FileTree) (old new : String)
    (asJson asIndex : Bool) : ((Command.compare old new asJson asIndex).run now t).status ≤ 1 := by
  have drift : ∀ passed, driftStatus passed ≤ 1 := by decide
  cases asIndex with
  | false =>
    rw [Command.run, Report.of_logged_status]
    cases (compareBundleFiles t old new).outcome <;> simp [reportComparison, drift]
  | true =>
    rw [Command.run, Report.of_logged_status]
    cases (ProjectIndex.compare t old new).outcome with
    | error e => exact Nat.le_refl 1
    | ok c => cases shown : c.shown <;> simp [reportIndexComparison, shown, drift]

/-- What the gate compares is the same. -/
def Agrees (t : FileTree) (old new : String) (asIndex : Bool) : Prop :=
  if asIndex then SameIndices t old new else SameBundles t old new

/-- A comparison on the command line ends with status zero when the level of the log is known and
what is compared is the same, and with status one otherwise. -/
theorem gate_opens_iff {t : FileTree} {old new : String} {words : List String}
    {content content' : ByteArray} (given : CompareWords old new words)
    (there : t.findText old = .ok (.file content))
    (there' : t.findText new = .ok (.file content')) (now logTime : String)
    (environment : List (String × String)) :
    ((run now logTime environment t ("compare" :: words)).status = 0 ↔
      (∃ log, LogSettings.ofEnvironment false environment = .ok log) ∧
        Agrees t old new (words.contains "--index")) ∧
    ((run now logTime environment t ("compare" :: words)).status = 0 ∨
      (run now logTime environment t ("compare" :: words)).status = 1) := by
  have reading := given.reading there there' environment
  cases level : LogSettings.ofEnvironment false environment with
  | error fault =>
    have status : (run now logTime environment t ("compare" :: words)).status = 1 := by
      rw [run, reading, level]
    simp [status]
  | ok log =>
    have status : (run now logTime environment t ("compare" :: words)).status =
        ((Command.compare old new (words.contains "--json")
          (words.contains "--index")).run now t).status := by
      rw [run, reading, level]
    have bounded := compare_status_le now t old new (words.contains "--json")
      (words.contains "--index")
    rw [status]
    refine ⟨?_, by omega⟩
    cases words.contains "--index" with
    | false => simpa [Agrees] using bundles_status_iff now t old new _
    | true => simpa [Agrees] using indices_status_iff now t old new _

/-- Two indices of one context file, whose bundles are the same up to the case of an id. -/
def respelledFolders : FileTree where
  nodes := .ofList [
    (["old"], .folder),
    (["old", "index"], .file ("\x7b\"type\":\"LogicStampIndex\",\"folders\":[" ++
      "\x7b\"contextFile\":\"x\"\x7d]\x7d").toUTF8),
    (["old", "x"], .file
      "[\x7b\"graph\":\x7b\"nodes\":[\x7b\"entryId\":\"A.tsx\"\x7d]\x7d\x7d]".toUTF8),
    (["new"], .folder),
    (["new", "index"], .file ("\x7b\"type\":\"LogicStampIndex\",\"folders\":[" ++
      "\x7b\"contextFile\":\"x\"\x7d]\x7d").toUTF8),
    (["new", "x"], .file
      "\x7b\"graph\":\x7b\"nodes\":[\x7b\"entryId\":\"a.tsx\"\x7d]\x7d\x7d".toUTF8)]
  named := by decide +kernel
  closed := by decide +kernel

theorem respelled_compares :
    (compareBundleFiles respelledFolders "old/x" "new/x").outcome = .ok ⟨[], [], []⟩ ∧
      (ProjectIndex.compare respelledFolders "old/index" "new/index").outcome =
        .ok ⟨[⟨"x", "x", .pass, some ⟨[], [], []⟩, none⟩], {}, []⟩ ∧
      (compareBundleFiles respelledFolders "old/x" "new/index").outcome =
        .ok ⟨[], ["a.tsx"], []⟩ := by
  decide +kernel

theorem gate_opens_iff_of_respelled :
    (run "" "" [] respelledFolders ["compare", "old/x", "--json", "new/x"]).status = 0 ∧
      (run "" "" [] respelledFolders ["compare", "--index", "old/index", "new/index"]).status = 0 ∧
      (run "" "" [] respelledFolders ["compare", "old/x", "new/index"]).status = 1 := by
  obtain ⟨same, sameIndices, drifted⟩ := respelled_compares
  have level : ∃ log, LogSettings.ofEnvironment false [] = .ok log := ⟨_, rfl⟩
  have oldFile : respelledFolders.findText "old/x" = .ok (.file _) := rfl
  have newFile : respelledFolders.findText "new/x" = .ok (.file _) := rfl
  have oldIndex : respelledFolders.findText "old/index" = .ok (.file _) := rfl
  have newIndex : respelledFolders.findText "new/index" = .ok (.file _) := rfl
  refine ⟨?_, ?_, ?_⟩
  · refine (gate_opens_iff ⟨by decide, by decide, by decide⟩ oldFile newFile "" "" []).1.mpr ?_
    exact ⟨level, bundles_passed_iff.mp ⟨_, same, rfl⟩⟩
  · refine (gate_opens_iff ⟨by decide, by decide, by decide⟩ oldIndex newIndex "" "" []).1.mpr ?_
    exact ⟨level, indices_passed_iff.mp ⟨_, sameIndices, rfl⟩⟩
  · have given : CompareWords "old/x" "new/index" ["old/x", "new/index"] :=
      ⟨by decide, by decide, by decide⟩
    obtain ⟨opens, either⟩ := gate_opens_iff given oldFile newIndex "" "" []
    refine either.resolve_left ?_
    intro zero
    obtain ⟨r, compared, passed⟩ := bundles_passed_iff.mpr (opens.mp zero).2
    rw [drifted] at compared
    cases compared
    exact absurd passed (by decide)

end ContractGraph.CommandLine
