import ContractGraph.Proofs.Drift.Folders
import ContractGraph.Proofs.Files.Reported

/-!
# Context files that cannot be read

A comparison of two indices comes to an end when every context file of both indices is settled: its
files are loaded as bundles of which snapshots can be taken, or the first of them that cannot be
loaded fails in a way that is reported. A folder with a file that cannot be loaded has drifted, and
what the comparison says about the others is what it says when no index lists that folder.
-/

namespace ContractGraph

set_option autoImplicit false

theorem Snapshot.of_bundles_fault {bundles : Json} {e : Fault}
    (failed : (ofBundles bundles).outcome = .error e) : ∃ fault, e = .shape fault := by
  rcases Logged.error_of_bind failed with unread | ⟨s, -, noted⟩
  · exact Logged.shape_of_lift unread
  · split at noted
    · cases noted
    · cases noted

theorem compare_bundles_fault {old new : Json} {e : Fault}
    (failed : (compareBundles old new).outcome = .error e) : ∃ fault, e = .shape fault := by
  rcases Logged.error_of_bind failed with first | ⟨a, -, failed⟩
  · exact Snapshot.of_bundles_fault first
  · rcases Logged.error_of_bind failed with second | ⟨b, -, done⟩
    · exact Snapshot.of_bundles_fault second
    · cases done

namespace ProjectIndex

variable {t : FileTree} {oldBase newBase : Location} {file : String} {e : Fault}

/-- The files of a context file let a comparison go on. -/
structure Settled (t : FileTree) (oldBase newBase : Location) (file : String) : Prop where
  before : ¬ t.EndsReading (.ofText (oldBase.child file).text)
  after : ∀ a, t.loadBundles (oldBase.child file).text = .ok a →
    ¬ t.EndsReading (.ofText (newBase.child file).text)
  taken : ∀ a b, t.loadBundles (oldBase.child file).text = .ok a →
    t.loadBundles (newBase.child file).text = .ok b →
      (∃ s, (Snapshot.ofBundles a).outcome = .ok s) ∧ ∃ s, (Snapshot.ofBundles b).outcome = .ok s

/-- The first file of a context file that cannot be loaded fails in this way. -/
def Unread (t : FileTree) (oldBase newBase : Location) (file : String) (e : Fault) : Prop :=
  t.loadBundles (oldBase.child file).text = .error e ∨
    (∃ a, t.loadBundles (oldBase.child file).text = .ok a) ∧
      t.loadBundles (newBase.child file).text = .error e

theorem Unread.stops (unread : Unread t oldBase newBase file e) :
    (compareBundleFiles t (oldBase.child file).text (newBase.child file).text).outcome =
      .error e := by
  rw [compareBundleFiles]
  rcases unread with first | ⟨⟨a, first⟩, second⟩
  · rw [first]
    rfl
  · rw [first, second]
    rfl

/-- A comparison of files that fails is one of files that cannot be loaded, or of shapes that cannot
be compared. -/
theorem unread_of_stopped
    (stopped : (compareBundleFiles t (oldBase.child file).text
      (newBase.child file).text).outcome = .error e) :
    Unread t oldBase newBase file e ∨ ∃ fault, e = .shape fault := by
  rcases Logged.error_of_bind stopped with first | ⟨a, first, stopped⟩
  · exact .inl (.inl first)
  · rcases Logged.error_of_bind stopped with second | ⟨b, -, stopped⟩
    · exact .inl (.inr ⟨⟨a, first⟩, second⟩)
    · exact .inr (compare_bundles_fault stopped)

theorem Unread.settled (unread : Unread t oldBase newBase file e) (reported : e.isReported = true) :
    Settled t oldBase newBase file := by
  rcases unread with first | ⟨⟨a, first⟩, second⟩
  · refine ⟨(FileTree.load_bundles_reported_iff first).mp reported, ?_, ?_⟩
    · intro _ there
      cases first.symm.trans there
    · intro _ _ there
      cases first.symm.trans there
  · refine ⟨FileTree.not_ends_of_loaded first, ?_, ?_⟩
    · intro _ _
      exact (FileTree.load_bundles_reported_iff second).mp reported
    · intro _ _ _ here
      cases second.symm.trans here

theorem ComparesTo.settled {c : Comparison} (compared : ComparesTo t oldBase newBase file c) :
    Settled t oldBase newBase file := by
  obtain ⟨a, b, first, second, done⟩ := compared
  obtain ⟨s, r, before, after, -⟩ := compare_bundles_ok_iff.mp done
  refine ⟨FileTree.not_ends_of_loaded first, fun _ _ => FileTree.not_ends_of_loaded second, ?_⟩
  intro _ _ there here
  cases first.symm.trans there
  cases second.symm.trans here
  exact ⟨⟨s, before⟩, r, after⟩

/-- Settled files compare, or one of them is not read for a reason that is reported. -/
theorem Settled.compares_or_unread (settled : Settled t oldBase newBase file) :
    (∃ c, ComparesTo t oldBase newBase file c) ∨
      ∃ e, Unread t oldBase newBase file e ∧ e.isReported = true := by
  cases first : t.loadBundles (oldBase.child file).text with
  | error e =>
    have reported := (FileTree.load_bundles_reported_iff first).mpr settled.before
    exact .inr ⟨e, .inl first, reported⟩
  | ok a =>
    cases second : t.loadBundles (newBase.child file).text with
    | error e =>
      have reported := (FileTree.load_bundles_reported_iff second).mpr (settled.after a first)
      exact .inr ⟨e, .inr ⟨⟨a, first⟩, second⟩, reported⟩
    | ok b =>
      obtain ⟨⟨s, before⟩, r, after⟩ := settled.taken a b first second
      have done := compare_bundles_ok_iff.mpr ⟨s, r, before, after, rfl⟩
      exact .inl ⟨_, a, b, first, second, done⟩

variable {gone folder : Fields} {was now : Option Fields} {row other : FolderComparison × Totals}

theorem settled_iff : (∃ row, Classified t oldBase newBase file (some gone) (some folder) row) ↔
    Settled t oldBase newBase file := by
  constructor
  · rintro ⟨row, done | ⟨stopped, reported⟩⟩
    · exact ComparesTo.settled (compare_bundle_files_ok_iff.mp done)
    · rcases unread_of_stopped stopped with unread | ⟨fault, rfl⟩
      · exact unread.settled reported
      · cases reported
  · intro settled
    rcases settled.compares_or_unread with ⟨c, compared⟩ | ⟨e, unread, reported⟩
    · exact ⟨_, .compared (compare_bundle_files_ok_iff.mpr compared)⟩
    · exact ⟨_, .failed unread.stops reported⟩

theorem Classified.unique (first : Classified t oldBase newBase file was now row)
    (second : Classified t oldBase newBase file was now other) : row = other := by
  cases first with
  | compared done =>
    cases second with
    | compared again =>
      cases done.symm.trans again
      rfl
    | failed stopped => cases done.symm.trans stopped
  | failed stopped =>
    cases second with
    | compared done => cases done.symm.trans stopped
    | failed again =>
      cases stopped.symm.trans again
      rfl
  | added =>
    cases second
    rfl
  | orphaned =>
    cases second
    rfl

/-- The folder that stands for a context file with a file that cannot be loaded. -/
def unreadFolder (folder : Fields) (file : String) (e : Fault) : FolderComparison :=
  ⟨folderPath folder, file, .drift, none, some e.message⟩

theorem Classified.of_unread
    (classified : Classified t oldBase newBase file (some gone) (some folder) row)
    (unread : Unread t oldBase newBase file e) :
    row = (unreadFolder folder file e, {}) := by
  cases classified with
  | compared done => cases unread.stops.symm.trans done
  | failed stopped =>
    cases unread.stops.symm.trans stopped
    rfl

variable {old new old' new' : Table String Fields} {rows rows' : List (FolderComparison × Totals)}

theorem mem_context_files_of_old (was : old.get? file = some gone) : file ∈ contextFiles old new :=
  mem_context_files_iff.mpr (.inl ((old.mem_keys_iff file).mpr ⟨gone, was⟩))

theorem exists_rows_iff : (∃ rows, Rows t oldBase newBase old new (contextFiles old new) rows) ↔
    ∀ file, (old.get? file).isSome → (new.get? file).isSome → Settled t oldBase newBase file := by
  rw [Rows, exists_forall_two_iff]
  constructor
  · intro each file before after
    obtain ⟨gone, there⟩ := Option.isSome_iff_exists.mp before
    obtain ⟨folder, here⟩ := Option.isSome_iff_exists.mp after
    have row := each file (mem_context_files_of_old there)
    rw [there, here] at row
    exact settled_iff.mp row
  · intro each file listed
    rw [mem_context_files_iff, old.mem_keys_iff, new.mem_keys_iff] at listed
    have settled := each file
    cases was : old.get? file with
    | some gone =>
      cases now : new.get? file with
      | some folder => exact settled_iff.mpr (settled (was ▸ rfl) (now ▸ rfl))
      | none => exact ⟨_, .orphaned⟩
    | none =>
      cases now : new.get? file with
      | some folder => exact ⟨_, .added⟩
      | none => simp [was, now] at listed

theorem Rows.mem_iff {files : List String} (each : Rows t oldBase newBase old new files rows)
    (f : FolderComparison) : f ∈ rows.map (·.1) ↔ f.contextFile ∈ files ∧
      ∃ totals, Classified t oldBase newBase f.contextFile (old.get? f.contextFile)
        (new.get? f.contextFile) (f, totals) := by
  constructor
  · intro member
    refine ⟨?_, each.classified member⟩
    rw [← each.files]
    exact List.mem_map_of_mem member
  · rintro ⟨listed, totals, classified⟩
    rw [← each.files] at listed
    obtain ⟨g, member, same⟩ := List.mem_map.mp listed
    obtain ⟨others, found⟩ := each.classified member
    -- One file is classified in one way only, so the folder that stands for it is this one.
    rw [same] at found
    have equal : g = f := congrArg Prod.fst (found.unique classified)
    exact equal ▸ member

theorem Rows.folders_nodup
    (each : Rows t oldBase newBase old new (contextFiles old new) rows) :
    (rows.map (·.1)).Nodup := by
  refine List.Nodup.of_map (·.contextFile) ?_
  rw [each.files]
  exact context_files_nodup old new

/-- Another index has the same folders by context file, but none for one of them. -/
def LeavesOut (file : String) (entry other : String → Option Fields) : Prop :=
  ∀ key, other key = if key = file then none else entry key

section LeftOut

variable (before : LeavesOut file old.get? old'.get?) (after : LeavesOut file new.get? new'.get?)

include before after

theorem mem_other_files_iff (key : String) :
    key ∈ contextFiles old' new' ↔ key ∈ contextFiles old new ∧ key ≠ file := by
  simp only [mem_context_files_iff, Table.mem_keys_iff, before key, after key]
  by_cases same : key = file <;> simp [same]

theorem exists_other_rows (each : Rows t oldBase newBase old new (contextFiles old new) rows) :
    ∃ rows', Rows t oldBase newBase old' new' (contextFiles old' new') rows' := by
  have settled := exists_rows_iff.mp ⟨rows, each⟩
  refine exists_rows_iff.mpr ?_
  intro key was now
  rw [before key] at was
  rw [after key] at now
  by_cases same : key = file
  · simp [same] at was
  · rw [if_neg same] at was now
    exact settled key was now

theorem other_rows_perm (each : Rows t oldBase newBase old new (contextFiles old new) rows)
    (others : Rows t oldBase newBase old' new' (contextFiles old' new') rows') :
    (rows'.map (·.1)).Perm ((rows.map (·.1)).filter fun f => f.contextFile ≠ file) := by
  -- The files of both indices may come in another order, so the rows are compared as sets.
  refine (List.perm_ext_iff_of_nodup others.folders_nodup (each.folders_nodup.filter _)).mpr ?_
  intro f
  rw [List.mem_filter, each.mem_iff, others.mem_iff, mem_other_files_iff before after,
    before f.contextFile, after f.contextFile]
  by_cases same : f.contextFile = file <;> simp [same]

theorem other_gone_perm (listed : (new.get? file).isSome) :
    (goneFiles old' new').Perm (goneFiles old new) := by
  have first : (goneFiles old' new').Nodup := old'.keys_nodup.filter _
  have second : (goneFiles old new).Nodup := old.keys_nodup.filter _
  refine (List.perm_ext_iff_of_nodup first second).mpr ?_
  intro key
  rw [mem_gone_files_iff, mem_gone_files_iff, before key, after key]
  by_cases same : key = file
  -- The left out file is not gone in either case: the new index lists it, or the old one does not.
  · subst same
    simp [Option.isSome_iff_ne_none.mp listed]
  · simp [same]

end LeftOut

theorem counts_of_filter {status : FolderStatus} {entry entry' : String → Option Fields}
    {folders : List FolderComparison} {kept : FolderComparison → Bool}
    (same : ∀ f ∈ folders, f.status = status →
      kept f = true ∧ entry' f.contextFile = entry f.contextFile) :
    countsOf status entry' (folders.filter kept) = countsOf status entry folders := by
  have filtered : (folders.filter kept).filter (fun f => f.status = status) =
      folders.filter fun f => f.status = status := by
    rw [List.filter_filter]
    refine List.filter_congr ?_
    intro f member
    by_cases here : f.status = status
    · simp [here, (same f member here).1]
    · simp [here]
  rw [countsOf, countsOf, filtered]
  refine congrArg List.sum (List.map_congr_left ?_)
  intro f member
  obtain ⟨member, here⟩ := List.mem_filter.mp member
  rw [(same f member (of_decide_eq_true here)).2]

theorem lengths_of_filter {ι : Type} (part : Comparison → List ι) {folders : List FolderComparison}
    {kept : FolderComparison → Bool} (same : ∀ f ∈ folders, f.result.isSome → kept f = true) :
    lengthsOf part (folders.filter kept) = lengthsOf part folders := by
  have results : (folders.filter kept).filterMap (·.result) = folders.filterMap (·.result) := by
    rw [List.filterMap_filter]
    refine List.filterMap_congr ?_
    intro f member
    cases here : f.result with
    | none => simp
    | some c => simp [same f member (here ▸ rfl)]
  rw [lengthsOf, lengthsOf, results]

/-- A folder that has drifted and has no component result plays no part in the totals. -/
theorem totals_without_drifted {old new old' new' : String → Option Fields}
    {folders : List FolderComparison} (before : LeavesOut file old old')
    (after : LeavesOut file new new')
    (drifted : ∀ f ∈ folders, f.contextFile = file → f.status = .drift ∧ f.result = none) :
    totalsFor old' new' (folders.filter fun f => f.contextFile ≠ file) =
      totalsFor old new folders := by
  have counts : ∀ {status : FolderStatus} {entry entry' : String → Option Fields},
      status ≠ .drift → LeavesOut file entry entry' →
        countsOf status entry' (folders.filter fun f => f.contextFile ≠ file) =
          countsOf status entry folders := by
    intro status entry entry' apart agree
    refine counts_of_filter ?_
    intro f member here
    have other : f.contextFile ≠ file := by
      intro same
      exact apart (here.symm.trans (drifted f member same).1)
    exact ⟨decide_eq_true other, (agree _).trans (if_neg other)⟩
  have lengths : ∀ {ι : Type} (part : Comparison → List ι),
      lengthsOf part (folders.filter fun f => f.contextFile ≠ file) = lengthsOf part folders := by
    intro ι part
    refine lengths_of_filter part ?_
    intro f member some
    refine decide_eq_true ?_
    intro same
    rw [(drifted f member same).2] at some
    cases some
  simp only [totalsFor, counts (by decide : FolderStatus.added ≠ .drift) after,
    counts (by decide : FolderStatus.orphaned ≠ .drift) before, lengths]

theorem Rows.unread_iff (each : Rows t oldBase newBase old new (contextFiles old new) rows)
    (was : old.get? file = some gone) (now : new.get? file = some folder)
    (unread : Unread t oldBase newBase file e) (f : FolderComparison) :
    f ∈ rows.map (·.1) ∧ f.contextFile = file ↔ f = unreadFolder folder file e := by
  have only : ∀ {row}, Classified t oldBase newBase file (old.get? file) (new.get? file) row →
      row = (unreadFolder folder file e, {}) := by
    intro row classified
    rw [was, now] at classified
    exact classified.of_unread unread
  constructor
  · rintro ⟨member, rfl⟩
    obtain ⟨totals, classified⟩ := each.classified member
    exact congrArg Prod.fst (only classified)
  · rintro rfl
    have listed : file ∈ contextFiles old new := mem_context_files_of_old was
    obtain ⟨row, classified⟩ := exists_forall_two_iff.mp ⟨rows, each⟩ file listed
    rw [only classified] at classified
    exact ⟨(each.mem_iff _).mpr ⟨listed, _, classified⟩, rfl⟩

/-- Two comparisons that agree on everything but the folder of a context file, which the second one
does not have. -/
structure SameBut (file : String) (c c' : IndexComparison) : Prop where
  folders : c'.folders.Perm (c.folders.filter fun f => f.contextFile ≠ file)
  totals : c'.totals = c.totals
  orphaned : c'.orphanedFiles = c.orphanedFiles

theorem summary_without {left : List String} (before : LeavesOut file old.get? old'.get?)
    (after : LeavesOut file new.get? new'.get?) (was : old.get? file = some gone)
    (now : new.get? file = some folder) (unread : Unread t oldBase newBase file e)
    (each : Rows t oldBase newBase old new (contextFiles old new) rows)
    (asked : (goneFiles old new).filterM (isExistingFile t oldBase) = .ok left) :
    ∃ rows' left', Rows t oldBase newBase old' new' (contextFiles old' new') rows' ∧
      (goneFiles old' new').filterM (isExistingFile t oldBase) = .ok left' ∧
      SameBut file (summary rows left) (summary rows' left') := by
  obtain ⟨rows', others⟩ := exists_other_rows before after each
  obtain ⟨answered, rfl⟩ := filter_ok_iff.mp asked
  have gone := other_gone_perm before after (now ▸ rfl)
  have asked' := filter_ok_iff.mpr ⟨fun key member => answered key (gone.mem_iff.mp member), rfl⟩
  have drifted : ∀ f ∈ rows.map (·.1), f.contextFile = file →
      f.status = .drift ∧ f.result = none := by
    intro f member same
    rw [(each.unread_iff was now unread f).mp ⟨member, same⟩]
    exact ⟨rfl, rfl⟩
  have perm := other_rows_perm before after each others
  refine ⟨rows', _, others, asked', ?_, ?_, ?_⟩
  · have sorts := (List.mergeSort_perm (rows.map (·.1)) fun f g =>
      Text.atMost f.folderPath g.folderPath)
    exact (List.mergeSort_perm _ _).trans (perm.trans (sorts.symm.filter _))
  · calc (summary rows' _).totals
        = Totals.plus {} (totalsFor old'.get? new'.get? (rows'.map (·.1))) := others.totals {}
      _ = Totals.plus {} (totalsFor old.get? new.get? (rows.map (·.1))) := by
        rw [totals_for_perm _ _ perm, totals_without_drifted before after drifted]
      _ = (summary rows _).totals := (each.totals {}).symm
  · exact Text.sorted_eq_iff.mpr (gone.filter _)

theorem existing_ok_iff : (∃ there, isExistingFile t oldBase file = .ok there) ↔
    ∃ there, t.isFile (oldBase.child file) = .ok there := by
  rw [isExistingFile]
  cases t.isFile (oldBase.child file) <;> simp [Except.mapError]

theorem compare_returns_iff {p q : String} {oldIndex newIndex : Fields}
    (first : t.loadIndex (Location.ofText p).text = .ok oldIndex)
    (second : t.loadIndex (Location.ofText q).text = .ok newIndex) :
    (∃ c, (compare t p q).outcome = .ok c) ↔
      (∀ file, (entryOf? oldIndex file).isSome → (entryOf? newIndex file).isSome →
        Settled t (Location.ofText p).parent (Location.ofText q).parent file) ∧
      ∀ file, (entryOf? oldIndex file).isSome → entryOf? newIndex file = none →
        ∃ there, t.isFile ((Location.ofText p).parent.child file) = .ok there := by
  simp only [← get_folders_of, ← existing_ok_iff]
  constructor
  · rintro ⟨c, done⟩
    obtain ⟨_, _, rows, left, loaded, loaded', each, asked, -⟩ := compare_ok_iff.mp done
    cases first.symm.trans loaded
    cases second.symm.trans loaded'
    refine ⟨exists_rows_iff.mp ⟨rows, each⟩, ?_⟩
    intro file was now
    exact (filter_ok_iff.mp asked).1 file (mem_gone_files_iff.mpr ⟨was, now⟩)
  · rintro ⟨settled, answered⟩
    obtain ⟨rows, each⟩ := exists_rows_iff.mpr settled
    have asked := filter_ok_iff.mpr ⟨fun file member =>
      answered file (mem_gone_files_iff.mp member).1 (mem_gone_files_iff.mp member).2, rfl⟩
    exact ⟨_, compare_ok_iff.mpr ⟨oldIndex, newIndex, rows, _, first, second, each, asked, rfl⟩⟩

end ProjectIndex

open ProjectIndex in
/-- A comparison of two indices that load comes to an end exactly when the context files of both are
settled and it can be told of each that is gone whether it is still there. A folder with a file that
cannot be loaded has then drifted, with the message of the failure and without a component result,
and without that folder everything else is as it was. -/
theorem unread_folders_drift {t : FileTree} {p q : String} {oldIndex newIndex : Fields}
    (first : t.loadIndex (Location.ofText p).text = .ok oldIndex)
    (second : t.loadIndex (Location.ofText q).text = .ok newIndex) :
    ((∃ c, (compare t p q).outcome = .ok c) ↔
      (∀ file, (entryOf? oldIndex file).isSome → (entryOf? newIndex file).isSome →
        Settled t (Location.ofText p).parent (Location.ofText q).parent file) ∧
      ∀ file, (entryOf? oldIndex file).isSome → entryOf? newIndex file = none →
        ∃ there, t.isFile ((Location.ofText p).parent.child file) = .ok there) ∧
    ∀ c, (compare t p q).outcome = .ok c → ∀ file gone folder e,
      entryOf? oldIndex file = some gone → entryOf? newIndex file = some folder →
      Unread t (Location.ofText p).parent (Location.ofText q).parent file e →
        (∀ f, f ∈ c.folders ∧ f.contextFile = file ↔ f = unreadFolder folder file e) ∧
        ∀ p' q' oldIndex' newIndex', (Location.ofText p').parent = (Location.ofText p).parent →
          (Location.ofText q').parent = (Location.ofText q).parent →
          t.loadIndex (Location.ofText p').text = .ok oldIndex' →
          t.loadIndex (Location.ofText q').text = .ok newIndex' →
          LeavesOut file (entryOf? oldIndex) (entryOf? oldIndex') →
          LeavesOut file (entryOf? newIndex) (entryOf? newIndex') →
            ∃ c', (compare t p' q').outcome = .ok c' ∧ SameBut file c c' := by
  refine ⟨compare_returns_iff first second, ?_⟩
  intro c done file gone folder e was now unread
  obtain ⟨_, _, rows, left, loaded, loaded', each, asked, rfl⟩ := compare_ok_iff.mp done
  cases first.symm.trans loaded
  cases second.symm.trans loaded'
  simp only [← get_folders_of] at was now ⊢
  constructor
  · intro f
    rw [← each.unread_iff was now unread f, summary, Text.sortedOn,
      (List.mergeSort_perm _ _).mem_iff]
  · intro p' q' oldIndex' newIndex' sameOld sameNew first' second' before after
    rw [← funext (get_folders_of oldIndex), ← funext (get_folders_of oldIndex')] at before
    rw [← funext (get_folders_of newIndex), ← funext (get_folders_of newIndex')] at after
    obtain ⟨rows', left', each', asked', same⟩ :=
      summary_without before after was now unread each asked
    rw [← sameOld, ← sameNew] at each'
    rw [← sameOld] at asked'
    exact ⟨_, compare_ok_iff.mpr
      ⟨oldIndex', newIndex', rows', left', first', second', each', asked', rfl⟩, same⟩

theorem rest_loads :
    mixedFolders.loadIndex (Location.ofText "old/rest").text =
        .ok (listing [[("contextFile", .str "b"), ("bundles", .int 2)]]) ∧
      mixedFolders.loadIndex (Location.ofText "new/rest").text =
        .ok (listing [[("contextFile", .str "c")]]) := by
  decide +kernel

theorem listing_leaves_out_last {folders : List (List (String × Json))} {file : String}
    (other : ProjectIndex.entryOf? (listing folders) file = none) :
    ProjectIndex.LeavesOut file
      (ProjectIndex.entryOf? (listing (folders ++ [[("contextFile", .str file)]])))
      (ProjectIndex.entryOf? (listing folders)) := by
  intro key
  by_cases same : key = file
  · rw [if_pos same, same, other]
  · have passed : ProjectIndex.asFolderOf key (.record [("contextFile", .str file)]) = none :=
      if_neg fun found => same found.2.symm
    have last : ProjectIndex.entryOf? (listing (folders ++ [[("contextFile", .str file)]])) key =
        ((folders ++ [[("contextFile", Json.str file)]]).map Json.record).reverse.findSome?
          (ProjectIndex.asFolderOf key) := rfl
    rw [if_neg same, last, List.map_append, List.reverse_append]
    show _ = (Json.record [("contextFile", Json.str file)] :: _).findSome? _
    rw [List.findSome?_cons, passed]
    rfl

theorem unread_folders_drift_of_mixed :
    ∃ c, (ProjectIndex.compare mixedFolders "old/index" "new/index").outcome = .ok c ∧
      ⟨"x", "x", .drift, none, some "Expected an array of bundles in new/x"⟩ ∈ c.folders ∧
      ∃ c', (ProjectIndex.compare mixedFolders "old/rest" "new/rest").outcome = .ok c' ∧
        ProjectIndex.SameBut "x" c c' := by
  obtain ⟨-, drifted⟩ := unread_folders_drift old_listing_loads new_listing_loads
  have unread : ProjectIndex.Unread mixedFolders (Location.ofText "old/index").parent
      (Location.ofText "new/index").parent "x" (.document (.notBundles "new/x")) :=
    .inr ⟨⟨.arr [], by decide +kernel⟩, by decide +kernel⟩
  obtain ⟨only, without⟩ := drifted _ mixed_compared "x" [(.str "contextFile", .str "x")]
    [(.str "contextFile", .str "x")] _ (by decide +kernel) (by decide +kernel) unread
  refine ⟨_, mixed_compared, ((only _).mpr rfl).1, ?_⟩
  exact without "old/rest" "new/rest" _ _ (by decide +kernel) (by decide +kernel) rest_loads.1
    rest_loads.2 (listing_leaves_out_last (by decide +kernel))
      (listing_leaves_out_last (by decide +kernel))

/-- An index with one context file, whose new file is no UTF-8. -/
def undecodable : FileTree where
  nodes := .ofList [
    (["old"], .folder),
    (["old", "index"], .file ("\x7b\"type\":\"LogicStampIndex\",\"folders\":[" ++
      "\x7b\"contextFile\":\"x\"\x7d]\x7d").toUTF8),
    (["old", "x"], .file "[]".toUTF8),
    (["new"], .folder),
    (["new", "index"], .file ("\x7b\"type\":\"LogicStampIndex\",\"folders\":[" ++
      "\x7b\"contextFile\":\"x\"\x7d]\x7d").toUTF8),
    (["new", "x"], .file ⟨#[0xff]⟩)]
  named := by decide +kernel
  closed := by decide +kernel

theorem undecodable_ends_comparison :
    undecodable.loadIndex (Location.ofText "old/index").text =
        .ok (listing [[("contextFile", .str "x")]]) ∧
      undecodable.loadIndex (Location.ofText "new/index").text =
        .ok (listing [[("contextFile", .str "x")]]) ∧
      (ProjectIndex.compare undecodable "old/index" "new/index").outcome = .error .notUtf8 := by
  have first : undecodable.loadIndex (Location.ofText "old/index").text =
      .ok (listing [[("contextFile", .str "x")]]) := by decide +kernel
  have second : undecodable.loadIndex (Location.ofText "new/index").text =
      .ok (listing [[("contextFile", .str "x")]]) := by decide +kernel
  refine ⟨first, second, ?_⟩
  refine (Logged.outcome_of_ok first).trans ?_
  refine (Logged.outcome_of_ok second).trans ?_
  refine Logged.outcome_of_error ?_
  decide +kernel

end ContractGraph
