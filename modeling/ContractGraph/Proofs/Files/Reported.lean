import ContractGraph.Files.Documents
import ContractGraph.Manifest.File
import ContractGraph.Proofs.Outcome

/-!
# Files that cannot be read

A document that cannot be loaded is reported as such unless the reading itself ends: no file can
have the path, the bytes are not UTF-8, or the text goes beyond the limits on digits and levels.
Where a path may mean a folder, to ask for that can fail as well, and so can looking for sidecars
below it, as paths there may be too long or folders nested too deep; of the sidecars the first that
cannot be read decides. The same ends the loading of a manifest.
-/

namespace ContractGraph

set_option autoImplicit false

/-- Every failure is of the given kind. -/
def FailsOnlyAs {α : Type} (kind : Fault → Prop) (x : Except Fault α) : Prop :=
  ∀ e, x = .error e → kind e

/-- A failure to load a document. -/
def Fault.OfDocument (e : Fault) : Prop := ∃ fault, e = .document fault

/-- A failure to load a manifest. -/
def Fault.OfManifest (e : Fault) : Prop := ∃ fault, e = .manifestRead fault

namespace FailsOnlyAs

variable {α β : Type} {kind : Fault → Prop} {x : Except Fault α}

@[simp] theorem ok_iff {a : α} : FailsOnlyAs kind (.ok a) ↔ True := by
  simp [FailsOnlyAs]

@[simp] theorem error_iff {e : Fault} : FailsOnlyAs kind (.error e : Except Fault α) ↔ kind e := by
  simp [FailsOnlyAs]

theorem bind_iff {f : α → Except Fault β} : FailsOnlyAs kind (x >>= f) ↔
    FailsOnlyAs kind x ∧ ∀ a, x = .ok a → FailsOnlyAs kind (f a) := by
  rcases x with e | a
  · have failed : ((.error e : Except Fault α) >>= f) = .error e := rfl
    simp [failed]
  · have goes : ((.ok a : Except Fault α) >>= f) = f a := rfl
    simp [goes]

theorem map_iff {f : α → β} : FailsOnlyAs kind (x.map f) ↔ FailsOnlyAs kind x := by
  cases x <;> simp [Except.map]

theorem map_error {ε : Type} {x : Except ε α} {f : ε → Fault} (each : ∀ e, kind (f e)) :
    FailsOnlyAs kind (x.mapError f) := by
  cases x with
  | error e => exact error_iff.mpr (each e)
  | ok a => exact ok_iff.mpr trivial

/-- In a pass over a list the first step that fails decides. -/
theorem map_each_iff {f : β → Except Fault α} {items : List β} :
    FailsOnlyAs kind (items.mapM f) ↔ ∀ before b after, items = before ++ b :: after →
      (∀ c ∈ before, ∃ a, f c = .ok a) → FailsOnlyAs kind (f b) := by
  induction items with
  | nil =>
    have none : ([] : List β).mapM f = .ok [] := rfl
    simp [none]
  | cons b rest ih =>
    have collects : ∀ a, FailsOnlyAs kind (rest.mapM f >>= fun others =>
        Pure.pure (f := Except Fault) (a :: others)) ↔ FailsOnlyAs kind (rest.mapM f) := by
      intro a
      rw [bind_iff]
      exact and_iff_left fun others _ => ok_iff.mpr trivial
    rw [List.mapM_cons, bind_iff]
    simp only [collects, ih]
    constructor
    · rintro ⟨first, later⟩ before c after split passed
      rcases before with _ | ⟨d, before⟩
      · cases split
        exact first
      · cases split
        obtain ⟨a, here⟩ := passed b List.mem_cons_self
        exact later a here before c after rfl fun d member =>
          passed d (List.mem_cons_of_mem b member)
    · intro each
      refine ⟨each [] b rest rfl (by simp), ?_⟩
      intro a here before c after split passed
      refine each (b :: before) c after (by rw [split, List.cons_append]) ?_
      exact List.forall_mem_cons.mpr ⟨⟨a, here⟩, passed⟩

end FailsOnlyAs

namespace FileTree

variable {t : FileTree} {e : Fault}

/-- Reading a document from a location ends in a way that the program has no words of its own for:
no file can have the path, the bytes are not UTF-8, or the text goes beyond the limits on digits and
levels. -/
def EndsReading (t : FileTree) (l : Location) : Prop :=
  l.hasNul = true ∨ ∃ content, t.find l = .ok (.file content) ∧
    ∀ text, decodeText? content = some text → ∃ x, Json.read text = .error (.excess x)

theorem find_of_nul {l : Location} (nul : l.hasNul = true) : t.find l = .error .nulInPath := by
  rw [find, if_pos nul]

theorem nul_of_find {l : Location} (found : t.find l = .error .nulInPath) : l.hasNul = true := by
  rw [find] at found
  split at found
  · assumption
  · split at found
    · cases found
    · split at found
      · cases found
      · split at found
        · cases found
        · cases found

theorem ends_reading_text_iff {l : Location} : t.EndsReading l ↔
    (∃ e, t.readText l = .error e ∧ ∀ error, e ≠ .system error) ∨
      ∃ text x, t.readText l = .ok text ∧ Json.read text = .error (.excess x) := by
  by_cases nul : l.hasNul = true
  · have unread : t.readText l = .error .nulInPath := by
      rw [readText, readBytes, find_of_nul nul]
      rfl
    exact ⟨fun _ => .inl ⟨_, unread, by simp⟩, fun _ => .inl nul⟩
  · rw [EndsReading, readText, readBytes]
    cases found : t.find l with
    | error access =>
      cases access with
      | system error => simp [nul, Fault.ofAccess]
      | nulInPath => exact absurd (nul_of_find found) nul
    | ok node =>
      cases node with
      | folder => simp [nul, Fault.ofAccess]
      | file content => cases decoded : decodeText? content <;> simp [nul, decoded]

theorem read_text_fault {l : Location} (failed : t.readText l = .error e) :
    (∃ error, e = .system error) ∨ e = .nulInPath ∨ e = .notUtf8 := by
  rw [readText] at failed
  split at failed
  · next access _ =>
    cases failed
    cases access with
    | system error => exact .inl ⟨error, rfl⟩
    | nulInPath => exact .inr (.inl rfl)
  · split at failed
    · cases failed
    · cases failed
      exact .inr (.inr rfl)

/-- A failure to read a document is of a kind with words for documents unless the reading ends. -/
theorem read_document_iff {kind : Fault → Prop} {l : Location}
    (documents : ∀ fault, kind (.document fault)) (nul : ¬ kind .nulInPath)
    (utf8 : ¬ kind .notUtf8) (excess : ∀ x, ¬ kind (.excess x)) :
    FailsOnlyAs kind (t.readDocument l) ↔ ¬ t.EndsReading l := by
  rw [ends_reading_text_iff, readDocument]
  cases got : t.readText l with
  | error e =>
    rcases read_text_fault got with ⟨error, rfl⟩ | rfl | rfl
    · by_cases absent : error = .notFound <;> simp [absent, documents]
    · simp [nul]
    · simp [utf8]
  | ok text =>
    cases read : Json.read text with
    | ok v => simp [read]
    | error fault => cases fault <;> simp [read, documents, excess]

/-- A document that cannot be loaded is reported unless the reading ends. -/
theorem document_reported_iff {l : Location} :
    FailsOnlyAs Fault.OfDocument (t.readDocument l) ↔ ¬ t.EndsReading l :=
  read_document_iff (fun fault => ⟨fault, rfl⟩) (by simp [Fault.OfDocument])
    (by simp [Fault.OfDocument]) (by simp [Fault.OfDocument])

theorem ends_reading_iff {l : Location} :
    t.EndsReading l ↔ ∃ e, t.readDocument l = .error e ∧ e.isReported = false := by
  have reported : FailsOnlyAs (fun e => e.isReported = true) (t.readDocument l) ↔
      ¬ t.EndsReading l :=
    read_document_iff (fun _ => rfl) (by simp [Fault.isReported]) (by simp [Fault.isReported])
      (by simp [Fault.isReported])
  rw [← not_iff_not, ← reported]
  simp [FailsOnlyAs]

theorem not_ends_of_loaded {path : String} {bundles : Json}
    (loaded : t.loadBundles path = .ok bundles) : ¬ t.EndsReading (.ofText path) := by
  obtain ⟨document, read, -⟩ := ok_of_bind loaded
  rw [ends_reading_iff]
  simp [read]

/-- A failure to load bundles is reported unless it ends the reading. -/
theorem load_bundles_reported_iff {path : String} (failed : t.loadBundles path = .error e) :
    e.isReported = true ↔ ¬ t.EndsReading (.ofText path) := by
  rw [ends_reading_iff]
  rcases error_of_bind failed with unread | ⟨document, read, shaped⟩
  · simp [unread]
  · have reported : e.isReported = true := by
      split at shaped
      · cases shaped
      · cases shaped
      · cases shaped
        rfl
    simp [read, reported]

theorem bundles_reported_iff {path : String} :
    FailsOnlyAs Fault.OfDocument (t.loadBundles path) ↔ ¬ t.EndsReading (.ofText path) := by
  rw [loadBundles, FailsOnlyAs.bind_iff, document_reported_iff]
  refine and_iff_left ?_
  intro d read
  cases d <;> simp [Pure.pure, Except.pure, Fault.OfDocument]

theorem index_reported_iff {path : String} :
    FailsOnlyAs Fault.OfDocument (t.loadIndex path) ↔ ¬ t.EndsReading (.ofText path) := by
  rw [loadIndex, FailsOnlyAs.bind_iff, document_reported_iff]
  refine and_iff_left ?_
  intro d read
  cases d with
  | obj fields =>
    dsimp only
    split
    · exact FailsOnlyAs.error_iff.mpr ⟨_, rfl⟩
    · split
      · exact FailsOnlyAs.ok_iff.mpr trivial
      · exact FailsOnlyAs.error_iff.mpr ⟨_, rfl⟩
  | _ => exact FailsOnlyAs.error_iff.mpr ⟨_, rfl⟩

/-- Loading contracts ends in a way that is not reported: it cannot be looked for sidecar files, for
paths that are too long or folders that are nested too deep, or the file that the source is cannot be
read, or so the first sidecar file of the folder that is no document. -/
def EndsLoading (t : FileTree) (source : Location) : Prop :=
  (∃ e, t.findSidecars source = .error e) ∨
    t.isFolder source = .ok false ∧ t.EndsReading source ∨
    ∃ before l after, t.findSidecars source = .ok (before ++ l :: after) ∧
      (∀ f ∈ before, ∃ d, t.readDocument f = .ok d) ∧ t.EndsReading l

theorem find_sidecars_unasked {source : Location} {e : SystemError}
    (failed : t.isFolder source = .error e) : t.findSidecars source = .error (.system e) := by
  rw [findSidecars, failed]

theorem find_sidecars_of_file {source : Location} (file : t.isFolder source = .ok false) :
    t.findSidecars source = .ok [] := by
  rw [findSidecars, file]

/-- Looking for sidecar files has no words of its own for a failure. -/
theorem find_sidecars_fault {source : Location} (failed : t.findSidecars source = .error e) :
    (∃ error, e = .system error) ∨ e = .foldersTooDeep := by
  rw [findSidecars] at failed
  split at failed
  · next error _ =>
    cases failed
    exact .inl ⟨error, rfl⟩
  · cases failed
  · split at failed
    · split at failed
      · cases failed
        exact .inl ⟨.nameTooLong, rfl⟩
      · split at failed
        · cases failed
          exact .inr rfl
        · cases failed
    · cases failed

theorem contract_documents_reported_iff {source : Location} :
    FailsOnlyAs Fault.OfDocument (t.contractDocuments source) ↔ ¬ t.EndsLoading source := by
  rw [contractDocuments, EndsLoading]
  rcases asked : t.isFolder source with e | folder
  · simp [find_sidecars_unasked asked, Fault.OfDocument]
  · cases folder with
    | false =>
      simp [find_sidecars_of_file asked, FailsOnlyAs.map_iff, document_reported_iff]
    | true =>
      cases listed : t.findSidecars source with
      | error e =>
        rcases find_sidecars_fault listed with ⟨error, rfl⟩ | rfl
        · simp [Fault.OfDocument]
        · simp [Fault.OfDocument]
      | ok files =>
        have pairs : ∀ f, (∃ p, ((t.readDocument f).map fun d => (f, d)) = .ok p) ↔
            ∃ d, t.readDocument f = .ok d := by
          intro f
          cases t.readDocument f <;> simp [Except.map]
        simp only [FailsOnlyAs.map_each_iff, FailsOnlyAs.map_iff, document_reported_iff, pairs]
        constructor
        · intro each ends
          rcases ends with ⟨e, failed⟩ | ⟨file, -⟩ | ⟨before, l, after, split, passed, ends⟩
          · cases failed
          · cases file
          · exact each before l after (Except.ok.inj split) passed ends
        · intro none before l after split passed ends
          exact none (.inr (.inr ⟨before, l, after, congrArg Except.ok split, passed, ends⟩))

/-- The contracts are those of the documents, one by one. -/
theorem load_contracts_outcome (t : FileTree) (path : String) : (t.loadContracts path).outcome =
    (t.contractDocuments (.ofText path) >>= fun documents => documents.mapM contractOf) := by
  simp only [loadContracts, Logged.outcome_bind, Logged.outcome_emit]
  cases t.contractDocuments (.ofText path) with
  | error e => rfl
  | ok documents =>
    change (liftM (documents.mapM contractOf) : Logged _).outcome.bind _ =
      documents.mapM contractOf
    cases documents.mapM contractOf <;> rfl

theorem contracts_reported_iff {path : String} :
    FailsOnlyAs Fault.OfDocument (t.loadContracts path).outcome ↔
      ¬ t.EndsLoading (.ofText path) := by
  have invalid : ∀ d, FailsOnlyAs Fault.OfDocument (contractOf d) := by
    intro d
    exact FailsOnlyAs.map_error fun cause => ⟨_, rfl⟩
  rw [load_contracts_outcome, FailsOnlyAs.bind_iff, contract_documents_reported_iff]
  refine and_iff_left ?_
  intro documents _
  exact FailsOnlyAs.map_each_iff.mpr fun _ d _ _ _ => invalid d

end FileTree

/-- Loading a manifest ends in a way that is not reported: it cannot be asked whether the path is a
folder, or the file cannot be read. -/
def Manifest.EndsLoading (t : FileTree) (source : Location) : Prop :=
  (∃ e, fileAt t source = .error e) ∨ ∃ file, fileAt t source = .ok file ∧ t.EndsReading file

theorem Manifest.load_reported_iff {t : FileTree} {path : String} :
    FailsOnlyAs Fault.OfManifest (load t path) ↔ ¬ EndsLoading t (.ofText path) := by
  rw [load, EndsLoading]
  cases fileAt t (.ofText path) with
  | error e => simp [Fault.OfManifest]
  | ok file =>
    simp only [reduceCtorEq, exists_false, false_or, Except.ok.injEq, exists_eq_left',
      FileTree.ends_reading_text_iff]
    cases got : t.readText file with
    | error e =>
      rcases FileTree.read_text_fault got with ⟨error, rfl⟩ | rfl | rfl
      · simp [Fault.OfManifest]
      · simp [Fault.OfManifest]
      · simp [Fault.OfManifest]
    | ok text =>
      cases read : Json.read text with
      | error fault => cases fault <;> simp [read, Fault.OfManifest]
      | ok v =>
        cases v with
        | obj fields =>
          have malformed : FailsOnlyAs Fault.OfManifest ((ofDocument (.obj fields)).mapError
              fun cause => .manifestRead (.malformed file.text cause)) :=
            .map_error fun cause => ⟨_, rfl⟩
          simpa [read] using malformed
        | _ => simp [read, Fault.OfManifest]

/-- What cannot be read is reported, by every way of loading, exactly unless the reading ends. -/
theorem unreadable_reported_iff (t : FileTree) (path : String) :
    (FailsOnlyAs Fault.OfDocument (t.readDocument (.ofText path)) ↔
        ¬ t.EndsReading (.ofText path)) ∧
      (FailsOnlyAs Fault.OfDocument (t.loadContracts path).outcome ↔
        ¬ t.EndsLoading (.ofText path)) ∧
      (FailsOnlyAs Fault.OfDocument (t.loadBundles path) ↔ ¬ t.EndsReading (.ofText path)) ∧
      (FailsOnlyAs Fault.OfDocument (t.loadIndex path) ↔ ¬ t.EndsReading (.ofText path)) ∧
      (FailsOnlyAs Fault.OfManifest (Manifest.load t path) ↔
        ¬ Manifest.EndsLoading t (.ofText path)) :=
  ⟨FileTree.document_reported_iff, FileTree.contracts_reported_iff, FileTree.bundles_reported_iff,
    FileTree.index_reported_iff, Manifest.load_reported_iff⟩

/-- A single file, which is no UTF-8. -/
def undecodableFile : FileTree where
  nodes := .ofList [(["x.json"], .file ⟨#[0xff]⟩)]
  named := by decide +kernel
  closed := by decide +kernel

theorem undecodable_file_unreported :
    undecodableFile.readDocument (.ofText "x.json") = .error .notUtf8 ∧
      (undecodableFile.loadContracts "x.json").outcome = .error .notUtf8 ∧
      undecodableFile.loadBundles "x.json" = .error .notUtf8 ∧
      undecodableFile.loadIndex "x.json" = .error .notUtf8 ∧
      Manifest.load undecodableFile "x.json" = .error .notUtf8 ∧
      ¬ Fault.OfDocument .notUtf8 ∧ ¬ Fault.OfManifest .notUtf8 := by
  have unread : undecodableFile.readDocument (.ofText "x.json") = .error .notUtf8 := by
    decide +kernel
  have file : undecodableFile.isFolder (.ofText "x.json") = .ok false := by decide +kernel
  refine ⟨unread, ?_, ?_, ?_, ?_, by simp [Fault.OfDocument], by simp [Fault.OfManifest]⟩
  · rw [FileTree.loadContracts, FileTree.contractDocuments, file, unread]
    rfl
  · rw [FileTree.loadBundles, unread]
    rfl
  · rw [FileTree.loadIndex, unread]
    rfl
  · have text : undecodableFile.readText (.ofText "x.json") = .error .notUtf8 := by decide +kernel
    have found : Manifest.fileAt undecodableFile (.ofText "x.json") = .ok (.ofText "x.json") := by
      rw [Manifest.fileAt, file]
      rfl
    rw [Manifest.load, found]
    dsimp only
    rw [text]

end ContractGraph
