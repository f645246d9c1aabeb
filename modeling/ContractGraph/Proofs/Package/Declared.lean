import ContractGraph.Package.Versions
import ContractGraph.Proofs.Files.Resolved
import ContractGraph.Proofs.Json.Documents
import ContractGraph.Proofs.Json.Same

/-!
# Declared versions

The version of a package in the package file of a resolved root, said of the files alone: the first
text that is not empty under the package in the sections of the document. A fresh lookup goes to the
file through the root as it is spelled. It answers with the declared version exactly when the file
system answers, the file is within the limits of the reader, and the spelling leads somewhere or
there is nothing to be found.
-/

namespace ContractGraph

set_option autoImplicit false

/-- The version of a package under a section, whose text is not empty. -/
def versionUnder (package : String) : Json → Option String
  | .obj versions => ((Fields.get? versions package).map Json.text).filter (· != "")
  | _ => none

/-- The version that a document declares for a package. -/
def versionIn (package : String) : Json → Option String
  | .obj fields =>
    dependencySections.findSome? fun name => versionUnder package (Fields.getD fields name)
  | _ => none

namespace PackageFile

variable {package : String}

theorem lookup_texts {fields : Fields} (texts : ∀ f ∈ fields, ∃ name, f.1 = .str name) :
    (fields.map fun f => ((Json.ofKey f.1).text, f.2.text)).lookup package =
      (Fields.get? fields package).map Json.text := by
  induction fields with
  | nil => rfl
  | cons f rest ih =>
    rcases f with ⟨key, v⟩
    obtain ⟨⟨name, rfl⟩, later⟩ := List.forall_mem_cons.mp texts
    simp only [Fields.get?, List.map_cons, List.lookup_cons, Key.str_beq_str] at ih ⊢
    rw [ih later]
    change (match package == name with | true => _ | false => _) = _
    cases package == name <;> rfl

theorem section_version {v : Json} (document : v.IsDocument) :
    ((sectionOf v).lookup package).filter (· != "") = versionUnder package v := by
  cases v with
  | obj fields =>
    rw [sectionOf, lookup_texts]
    · rfl
    · intro f member
      exact ((Json.fields_are_documents_iff.mp document).1 f member).1
  | _ => rfl

theorem document_of_get {fields : Fields} (document : (Json.obj fields).IsDocument) (name : String) :
    (Fields.getD fields name).IsDocument := by
  rw [Fields.getD]
  cases found : Fields.get? fields name with
  | none => rfl
  | some v =>
    obtain ⟨key, member, -⟩ := Fields.mem_of_lookup found
    exact ((Json.fields_are_documents_iff.mp document).1 _ member).2

/-- What is kept of a package file answers with the versions that the document declares. -/
theorem version_of_document {d : Json} (document : d.IsDocument) :
    (ofDocument? d).bind (·.version? package) = versionIn package d := by
  cases d with
  | obj fields =>
    have under : ∀ name, ((sectionOf (Fields.getD fields name)).lookup package).filter (· != "") =
        versionUnder package (Fields.getD fields name) := by
      intro name
      exact section_version (document_of_get document name)
    simp only [ofDocument?, versionIn]
    split
    · simp only [Option.bind_some, version?, List.findSome?_map, Function.comp_def, under]
    · next none =>
      refine (List.findSome?_eq_none_iff.mpr ?_).symm
      intro name listed
      have other : (Fields.getD fields name).shape ≠ .obj := by
        intro same
        refine none (List.any_eq_true.mpr ⟨_, List.mem_map_of_mem listed, ?_⟩)
        exact decide_eq_true same
      cases value : Fields.getD fields name with
      | obj versions => exact absurd (congrArg Json.shape value) other
      | _ => rfl
  | _ => rfl

end PackageFile

namespace FileTree

/-- What stands as the package file in the folder of a resolved root. -/
def packageNode? (t : FileTree) (root : Location.Resolved) : Option FileNode :=
  ((spotOf root).down? packageFileName).bind t.nodeAt?

/-- The document of a file, none when it is no UTF-8 or no JSON text. -/
def documentIn? (content : ByteArray) : Option Json :=
  (decodeText? content).bind fun text => (Json.read text).toOption

/-- The version of a package in the package file of a resolved root. -/
def declared (t : FileTree) (root : Location.Resolved) (package : String) : Option String :=
  match t.packageNode? root with
  | some (.file content) => (documentIn? content).bind (versionIn package)
  | _ => none

/-- Whether a file holds no text that is beyond the limits of the reader. -/
def IsWithinLimits (content : ByteArray) : Prop :=
  ∀ text e, decodeText? content = some text → Json.read text ≠ .error (.excess e)

variable {t : FileTree} {root : Location} {package : String}

/-- The step from a root to its package file. -/
theorem step_to_package (t : FileTree) (r : Location.Resolved) :
    match t.packageNode? r with
    | some node =>
      ∃ next, t.step (spotOf r) packageFileName = .ok next ∧ t.nodeAt? next = some node
    | none =>
      ∃ e, t.step (spotOf r) packageFileName = .error e ∧ meansAbsent (.system e) = true := by
  have own : packageFileName ≠ ".." := by decide
  have short : ¬maxNameLength < packageFileName.utf8ByteSize := by decide
  rw [packageNode?]
  cases spotOf r with
  | root =>
    refine ⟨.notFound, ?_, rfl⟩
    simp [step, nodeAt?, own, short, Spot.down?]
  | inside names =>
    simp only [Spot.down?, Option.bind_some]
    cases found : t.nodeAt? (.inside (names ++ [packageFileName])) with
    | some node =>
      have folder := step_in_folder own found
      refine ⟨.inside (names ++ [packageFileName]), ?_, found⟩
      simp [step, folder, own, short, Spot.down?, found]
    | none =>
      by_cases folder : t.nodeAt? (.inside names) = some .folder
      · refine ⟨.notFound, ?_, rfl⟩
        simp [step, folder, own, short, Spot.down?, found]
      · refine ⟨.notFolder, ?_, rfl⟩
        simp [step, folder]

theorem child_package (root : Location) :
    root.child packageFileName = ⟨root.slashes, root.parts ++ [packageFileName]⟩ := by
  have name : Location.ofText packageFileName = ⟨0, [packageFileName]⟩ := by decide
  rw [Location.child, Location.join, name]
  rfl

theorem follow_child (t : FileTree) (root : Location) :
    t.follow (root.child packageFileName) =
      t.follow root >>= fun spot => t.step spot packageFileName := by
  rw [child_package, follow, follow, List.foldlM_append]
  simp only [List.foldlM_cons, List.foldlM_nil, bind_pure]
  rfl

theorem child_has_nul (clear : root.hasNul = false) :
    (root.child packageFileName).hasNul = false := by
  rw [child_package, Location.hasNul, List.any_append]
  rw [Location.hasNul] at clear
  rw [clear]
  decide

/-- Through a root that can be followed, the file is found that stands in the resolved root. -/
theorem find_package (clear : root.hasNul = false)
    (short : ¬maxPathLength < (root.child packageFileName).text.utf8ByteSize) {spot : Spot}
    (led : t.follow root = .ok spot) :
    match t.packageNode? root.resolve with
    | some node => t.find (root.child packageFileName) = .ok node
    | none =>
      ∃ e, t.find (root.child packageFileName) = .error (.system e) ∧
        meansAbsent (.system e) = true := by
  have step := t.step_to_package root.resolve
  have follow : t.follow (root.child packageFileName) =
      t.step (spotOf root.resolve) packageFileName := by
    rw [follow_child, led, spot_of_follow led]
    rfl
  rw [find, child_has_nul clear, if_neg short, follow]
  cases node : t.packageNode? root.resolve with
  | some node =>
    rw [node] at step
    obtain ⟨next, done, there⟩ := step
    simp [done, there]
  | none =>
    rw [node] at step
    obtain ⟨e, failed, absent⟩ := step
    exact ⟨e, by simp [failed], absent⟩

/-- What a fresh lookup answers. -/
def lookedUp (t : FileTree) (root : Location) (package : String) : Except Fault (Option String) :=
  (t.packageFile root).outcome.map fun file => file.bind (·.version? package)

/-- Where it can be asked for the file and there is none, nothing is declared. -/
theorem looked_up_absent {there : Bool}
    (asked : t.isFile (root.child packageFileName) = .ok there)
    (absent : ∀ content, t.find (root.child packageFileName) ≠ .ok (.file content)) :
    t.lookedUp root package = .ok none := by
  have none : t.isFile (root.child packageFileName) = .ok false := by
    rw [isFile] at asked ⊢
    cases found : t.find (root.child packageFileName) with
    | ok node =>
      cases node with
      | file content => exact absurd found (absent content)
      | folder => rfl
    | error e =>
      cases e with
      | nulInPath => rfl
      | system e =>
        simp only [found] at asked ⊢
        split at asked
        · next means => rw [if_pos means]
        · cases asked
  rw [lookedUp, packageFile]
  simp only [none]
  rfl

theorem looked_up_unasked {e : SystemError}
    (failed : t.isFile (root.child packageFileName) = .error e) :
    t.lookedUp root package = .error (.system e) := by
  rw [lookedUp, packageFile]
  simp only [failed]
  rfl

theorem short_of_asked {there : Bool} (clear : root.hasNul = false)
    (asked : t.isFile (root.child packageFileName) = .ok there) :
    ¬maxPathLength < (root.child packageFileName).text.utf8ByteSize := by
  intro long
  have tooLong : t.find (root.child packageFileName) = .error (.system .nameTooLong) := by
    rw [find, child_has_nul clear, if_pos long]
    rfl
  rw [isFile, tooLong] at asked
  cases asked

/-- What is kept of a package file that is found. -/
theorem package_file_found {content : ByteArray}
    (found : t.find (root.child packageFileName) = .ok (.file content)) :
    (t.packageFile root).outcome =
      match (decodeText? content).map Json.read with
      | some (.error (.excess e)) => .error (.excess e)
      | some (.ok document) => .ok (PackageFile.ofDocument? document)
      | _ => .ok none := by
  have isFile : t.isFile (root.child packageFileName) = .ok true := by
    rw [FileTree.isFile, found]
    rfl
  have bytes : t.readBytes (root.child packageFileName) = .ok content := by
    rw [readBytes, found]
  rw [packageFile]
  simp only [isFile, readText, bytes]
  cases decodeText? content with
  | none => rfl
  | some text =>
    simp only [Except.map, Option.map_some]
    rcases Json.read text with (_ | _) | _ <;> rfl

theorem looked_up_found {content : ByteArray}
    (found : t.find (root.child packageFileName) = .ok (.file content)) :
    t.lookedUp root package = .ok ((documentIn? content).bind (versionIn package)) ↔
      IsWithinLimits content := by
  rw [lookedUp, package_file_found found, documentIn?]
  cases decoded : decodeText? content with
  | none => simp [IsWithinLimits, decoded, Except.map]
  | some text =>
    have limits : IsWithinLimits content ↔ ∀ e, Json.read text ≠ .error (.excess e) := by
      rw [IsWithinLimits, decoded]
      exact ⟨fun each e => each text e rfl, fun each _ e same => Option.some.inj same ▸ each e⟩
    rw [limits]
    cases read : Json.read text with
    | error fault => cases fault <;> simp [read, Except.map, Except.toOption]
    | ok document =>
      have declared : (PackageFile.ofDocument? document).bind (·.version? package) =
          versionIn package document := PackageFile.version_of_document (Json.document_of_read read)
      simp [read, Except.map, Except.toOption, declared]

/-- When a fresh lookup through a root, as it is spelled, answers with the declared version. -/
structure Reaches (t : FileTree) (root : Location) (package : String) : Prop where
  asked : ∃ there, t.isFile (root.child packageFileName) = .ok there
  within : ∀ content, t.find (root.child packageFileName) = .ok (.file content) →
    IsWithinLimits content
  led : (∃ spot, t.follow root = .ok spot) ∨ t.declared root.resolve package = none

/-- Where no file is found and none is there when the root can be followed, nothing has to be
declared for the answer to be right. -/
theorem looked_up_iff_of_absent {there : Bool} {answer : Except AccessFault FileNode}
    (asked : t.isFile (root.child packageFileName) = .ok there)
    (found : t.find (root.child packageFileName) = answer)
    (other : ∀ content, answer ≠ .ok (.file content))
    (nothing : ∀ spot, t.follow root = .ok spot → t.declared root.resolve package = none) :
    t.lookedUp root package = .ok (t.declared root.resolve package) ↔ t.Reaches root package := by
  have absent : ∀ content, t.find (root.child packageFileName) ≠ .ok (.file content) := by
    intro content
    rw [found]
    exact other content
  rw [looked_up_absent asked absent]
  constructor
  · intro same
    exact ⟨⟨there, asked⟩, fun content found => absurd found (absent content),
      .inr (Except.ok.inj same).symm⟩
  · rintro ⟨-, -, ⟨spot, led⟩ | none⟩
    · rw [nothing spot led]
    · rw [none]

/-- A fresh lookup answers with the declared version exactly when it reaches the declaration. -/
theorem looked_up_iff (package : String) (clear : root.hasNul = false) :
    t.lookedUp root package = .ok (t.declared root.resolve package) ↔ t.Reaches root package := by
  cases asked : t.isFile (root.child packageFileName) with
  | error e =>
    rw [looked_up_unasked asked]
    constructor
    · intro same
      cases same
    · rintro ⟨⟨there, answered⟩, -, -⟩
      rw [asked] at answered
      cases answered
  | ok there =>
    have short := short_of_asked clear asked
    cases led : t.follow root with
    | error e =>
      have failed : t.find (root.child packageFileName) = .error (.system e) := by
        rw [find, child_has_nul clear, if_neg short, follow_child, led]
        rfl
      refine looked_up_iff_of_absent asked failed (by simp) ?_
      intro spot followed
      rw [led] at followed
      cases followed
    | ok spot =>
      have found := find_package clear short led
      cases node : t.packageNode? root.resolve with
      | none =>
        rw [node] at found
        obtain ⟨e, failed, -⟩ := found
        refine looked_up_iff_of_absent asked failed (by simp) ?_
        intro _ _
        rw [declared, node]
      | some node' =>
        rw [node] at found
        cases node' with
        | folder =>
          refine looked_up_iff_of_absent asked found (by simp) ?_
          intro _ _
          rw [declared, node]
        | file content =>
          rw [declared, node]
          simp only
          rw [looked_up_found found]
          constructor
          · intro within
            refine ⟨⟨there, asked⟩, ?_, .inl ⟨spot, led⟩⟩
            intro other here
            rw [found] at here
            cases here
            exact within
          · intro reaches
            exact reaches.within content found

end FileTree

namespace VersionCache

variable {t : FileTree} {root : Location} {cache : VersionCache} {package : String}

theorem version_of_nul (nul : root.hasNul = true) :
    (cache.version t root package).version = .error .nulInPath := by
  simp only [version, load, nul, if_true]
  rfl

theorem version_kept {file : Option PackageFile} (clear : root.hasNul = false)
    (kept : cache.files.get? root.resolve = some file) :
    cache.version t root package = ⟨cache, [], .ok (file.bind (·.version? package))⟩ := by
  simp only [version, load, clear, kept, Bool.false_eq_true, if_false]
  rfl

/-- Without a file that is kept the answer is that of a fresh lookup. -/
theorem version_fresh (clear : root.hasNul = false) (none : cache.files.get? root.resolve = none) :
    (cache.version t root package).version = t.lookedUp root package := by
  simp only [version, load, clear, none, Bool.false_eq_true, if_false]
  cases found : (t.packageFile root).outcome <;> rw [FileTree.lookedUp, found]

/-- What a fresh lookup found is kept. -/
theorem state_fresh {file : Option PackageFile} (clear : root.hasNul = false)
    (none : cache.files.get? root.resolve = none)
    (found : (t.packageFile root).outcome = .ok file) :
    (cache.version t root package).state = ⟨cache.files.insert root.resolve file⟩ := by
  simp only [version, load, clear, none, found, Bool.false_eq_true, if_false]

/-- A lookup changes the cache in no other way than to keep what a fresh one found. -/
theorem state_cases (t : FileTree) (root : Location) (cache : VersionCache) (package : String) :
    (cache.version t root package).state = cache ∨
      root.hasNul = false ∧ cache.files.get? root.resolve = none ∧
        ∃ file, (t.packageFile root).outcome = .ok file ∧
          (cache.version t root package).state = ⟨cache.files.insert root.resolve file⟩ := by
  cases clear : root.hasNul with
  | true =>
    left
    simp only [version, load, clear, if_true]
  | false =>
    cases kept : cache.files.get? root.resolve with
    | some file =>
      left
      rw [version_kept clear kept]
    | none =>
      cases found : (t.packageFile root).outcome with
      | ok file => exact .inr ⟨rfl, rfl, file, rfl, state_fresh clear kept found⟩
      | error e =>
        left
        simp only [version, load, clear, kept, found, Bool.false_eq_true, if_false]

end VersionCache

end ContractGraph
