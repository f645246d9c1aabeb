import ContractGraph.Manifest.Basic
import ContractGraph.Proofs.Outcome
import ContractGraph.Proofs.Text.Segments

/-!
# Resolution as a scan

A resolver answers from indices that are filled once. Here the same answers are given by going
through the components in their order for every question: by normal form, by the end of the key and
by the last segment of the key. Every question to the indices has the answer of the scan.
-/

namespace ContractGraph

set_option autoImplicit false

namespace Scan

/-- The keys of components with their entry ids, in the order of the components. -/
def rowsOf (m : Manifest) : List (String × String) :=
  m.components.entries.map fun e => (e.1, e.2.entryId.text)

/-- The first key with the normal form of an id, or else the first one whose entry id has it. -/
def firstKey (rows : List (String × String)) (id : String) : Option String :=
  ((rows.find? fun row => EntryId.normalize row.1 == EntryId.normalize id).or
    (rows.find? fun row => EntryId.normalize row.2 == EntryId.normalize id)).map (·.1)

def siblings (name referrer : String) : List String :=
  let directory := EntryId.directory (EntryId.normalize referrer)
  [".tsx", ".ts", "/index.tsx", "/index.ts"].map fun suffix =>
    if directory = "" then name ++ suffix else directory ++ "/" ++ name ++ suffix

def keysEndingIn (rows : List (String × String)) (ending : String) : List String :=
  (rows.map (·.1)).filter fun key => ending.toList.isSuffixOf key.toList

def lastSegment (key : String) : String :=
  String.ofList ((Text.splitAt '/' (EntryId.withSlashes key.toList)).getLastD [])

def keysNamed (rows : List (String × String)) (name : String) : List String :=
  (rows.map (·.1)).filter fun key =>
    EntryId.dropExtension (lastSegment key) == EntryId.dropExtension name

def sole (tier : Tier) (key : String) : Match := ⟨key, tier, [key]⟩

def find? (rows : List (String × String)) (name : String) (referrer : Option String) :
    Option Match :=
  if name = "" then none
  else
    let relative := referrer.bind fun referrer =>
      (siblings name referrer).findSome? (firstKey rows)
    (relative.map (sole .relative)).or <|
    ((firstKey rows name).map (sole .exact)).or <|
    (Match.ofCandidates .suffix (keysEndingIn rows ("/" ++ name ++ ".tsx"))).or <|
    (Match.ofCandidates .suffix (keysEndingIn rows ("/" ++ name ++ ".ts"))).or <|
    Match.ofCandidates .basename (keysNamed rows name)

theorem eq_of_candidates {tier : Tier} {keys : List String} {found : Match}
    (h : Match.ofCandidates tier keys = some found) :
    ∃ key rest, keys = key :: rest ∧ found = ⟨key, tier, key :: rest⟩ := by
  cases keys with
  | nil => cases h
  | cons key rest => exact ⟨key, rest, rfl, (Option.some.inj h).symm⟩

/-- A match is the one key that has a normal form, or it comes with all keys of some kind. -/
theorem find_cases {rows : List (String × String)} {name : String} {referrer : Option String}
    {found : Match} (h : find? rows name referrer = some found) :
    (∃ tier id key, firstKey rows id = some key ∧ found = sole tier key) ∨
      ∃ tier p key rest, (rows.map (·.1)).filter p = key :: rest ∧
        found = ⟨key, tier, key :: rest⟩ := by
  have one : ∀ (tier : Tier) (id : String), (firstKey rows id).map (sole tier) = some found →
      ∃ tier id key, firstKey rows id = some key ∧ found = sole tier key := by
    intro tier id chosen
    obtain ⟨key, here, rfl⟩ := Option.map_eq_some_iff.mp chosen
    exact ⟨tier, id, key, here, rfl⟩
  have several : ∀ (tier : Tier) (p : String → Bool),
      Match.ofCandidates tier ((rows.map (·.1)).filter p) = some found →
        ∃ tier p key rest, (rows.map (·.1)).filter p = key :: rest ∧
          found = ⟨key, tier, key :: rest⟩ := by
    intro tier p chosen
    obtain ⟨key, rest, kept, whole⟩ := eq_of_candidates chosen
    exact ⟨tier, p, key, rest, kept, whole⟩
  rw [find?] at h
  split at h
  · cases h
  · simp only [Option.or_eq_some_iff] at h
    rcases h with h | ⟨-, h | ⟨-, h | ⟨-, h | ⟨-, h⟩⟩⟩⟩
    · obtain ⟨key, relative, rfl⟩ := Option.map_eq_some_iff.mp h
      obtain ⟨id, -, siblings⟩ := Option.bind_eq_some_iff.mp relative
      obtain ⟨path, -, here⟩ := List.exists_of_findSome?_eq_some siblings
      exact .inl ⟨.relative, path, key, here, rfl⟩
    · exact .inl (one _ _ h)
    · exact .inr (several _ _ h)
    · exact .inr (several _ _ h)
    · exact .inr (several _ _ h)

theorem key_is_first_candidate {rows : List (String × String)} {name : String}
    {referrer : Option String} {found : Match} (h : find? rows name referrer = some found) :
    found.candidates.head? = some found.key := by
  rcases find_cases h with ⟨tier, id, key, -, rfl⟩ | ⟨tier, p, key, rest, -, rfl⟩
  · rfl
  · rfl

theorem mem_of_first_key {rows : List (String × String)} {id key : String}
    (found : firstKey rows id = some key) : key ∈ rows.map (·.1) := by
  obtain ⟨row, chosen, rfl⟩ := Option.map_eq_some_iff.mp found
  rcases Option.or_eq_some_iff.mp chosen with first | ⟨-, second⟩
  · exact List.mem_map_of_mem (List.mem_of_find?_eq_some first)
  · exact List.mem_map_of_mem (List.mem_of_find?_eq_some second)

/-- A match gives the key of a component. -/
theorem key_mem_of_find {rows : List (String × String)} {name : String}
    {referrer : Option String} {found : Match} (h : find? rows name referrer = some found) :
    found.key ∈ rows.map (·.1) := by
  rcases find_cases h with ⟨tier, id, key, here, rfl⟩ | ⟨tier, p, key, rest, kept, rfl⟩
  · exact mem_of_first_key here
  · have among : key ∈ (rows.map (·.1)).filter p := kept ▸ List.mem_cons_self
    exact (List.mem_filter.mp among).1

end Scan

namespace Resolver

variable (rows : List (String × String))

/-- The resolver of components that all have a text as their entry id. -/
def ofRows : Resolver := ofIds (rows.map fun row => (row.1, some row.2))

theorem keys_of_rows : (ofRows rows).keys = rows.map (·.1) := by
  simp [ofRows, ofIds]

/-- The second pass over the entry ids finds what the first pass over the keys left open. -/
theorem lookup_of_rows {id : String} (named : id ≠ "") :
    (ofRows rows).lookup id = Scan.firstKey rows id := by
  have indexed : (ofRows rows).byId.get? (EntryId.normalize id) =
      ((rows.find? fun row => EntryId.normalize row.1 == EntryId.normalize id).map (·.1)).or
        ((rows.find? fun row => EntryId.normalize row.2 == EntryId.normalize id).map (·.1)) := by
    simp only [ofRows, ofIds, indexIds, List.foldl_map]
    rw [Table.get_fold_insert_new (fun row : String × String => EntryId.normalize row.2),
      Table.get_fold_insert_new (fun row : String × String => EntryId.normalize row.1)]
    rfl
  rw [lookup, if_neg named, indexed, Scan.firstKey]
  cases rows.find? fun row => EntryId.normalize row.1 == EntryId.normalize id <;> rfl

theorem file_name_eq_iff {key target : String} (flat : hasSlash target = false) :
    (hasSlash key = true ∧ fileName key = target) ↔
      ('/' :: target.toList).isSuffixOf key.toList = true := by
  have absent : '/' ∉ target.toList := by simpa [hasSlash] using flat
  rw [List.isSuffixOf_iff_suffix, ← Text.back_until_eq_iff_suffix absent]
  have ends : fileName key = String.ofList (Text.backUntil (· == '/') key.toList) := rfl
  rw [ends, hasSlash, List.contains_iff_mem]
  constructor
  · intro given
    rcases given with ⟨slash, rfl⟩
    exact ⟨slash, by simp⟩
  · intro given
    rcases given with ⟨slash, back⟩
    exact ⟨slash, by rw [back, String.ofList_toList]⟩

/-- The index of file names is only asked for targets without a slash, and there it gives the keys
that end in the target after a slash. -/
theorem with_suffix_of_rows (target : String) :
    (ofRows rows).withSuffix target = Scan.keysEndingIn rows ("/" ++ target) := by
  have ending : ("/" ++ target).toList = '/' :: target.toList := by simp
  rw [withSuffix, keys_of_rows, Scan.keysEndingIn, ending]
  split
  · rfl
  · next flat =>
    have indexed : (ofRows rows).byFileName = indexFileNames (rows.map (·.1)) :=
      congrArg indexFileNames (keys_of_rows rows)
    rw [indexed, indexFileNames, Table.get_fold_append fileName (fun key => key), Table.get_empty,
      List.map_id', List.filter_filter]
    apply List.filter_congr
    intro key _
    rw [Bool.eq_iff_iff, ← file_name_eq_iff (by simpa using flat)]
    simp [and_comm]

theorem named_of_rows (name : String) :
    ((ofRows rows).byStem.get? (EntryId.dropExtension name)).getD [] =
      Scan.keysNamed rows name := by
  have indexed : (ofRows rows).byStem = indexStems (rows.map (·.1)) :=
    congrArg indexStems (keys_of_rows rows)
  have stems : ∀ key, EntryId.stem key = EntryId.dropExtension (Scan.lastSegment key) := by
    intro key
    rw [EntryId.stem, EntryId.dropExtension, Scan.lastSegment,
      EntryId.last_piece_eq_last_segment, String.toList_ofList]
  rw [indexed, indexStems, Table.get_fold_append EntryId.stem (fun key => key), Table.get_empty,
    List.map_id', Scan.keysNamed]
  simp only [stems, Option.getD_none, List.nil_append]

theorem sibling_paths_eq (name referrer : String) :
    siblingPaths name referrer = Scan.siblings name referrer := by
  simp only [siblingPaths, siblingSuffixes, Scan.siblings, List.map_cons, List.map_nil]
  by_cases top : EntryId.directory (EntryId.normalize referrer) = ""
  · simp only [top, if_true]
  · simp only [top, if_false]

theorem sibling_ne_empty {name referrer path : String}
    (member : path ∈ Scan.siblings name referrer) : path ≠ "" := by
  have filled : ∀ start suffix : String, suffix ≠ "" → start ++ suffix ≠ "" := by
    intro start suffix ends joined
    exact ends (String.append_eq_empty_iff.mp joined).2
  simp only [Scan.siblings, List.mem_map, List.mem_cons, List.not_mem_nil, or_false] at member
  rcases member with ⟨suffix, choice, rfl⟩
  have ends : suffix ≠ "" := by rcases choice with rfl | rfl | rfl | rfl <;> decide
  split
  · exact filled _ _ ends
  · exact filled _ _ ends

/-- Only what is asked of the members of a list decides its first answer. -/
theorem find_some_congr {α β : Type} {f g : α → Option β} {items : List α}
    (same : ∀ a ∈ items, f a = g a) : items.findSome? f = items.findSome? g := by
  induction items with
  | nil => rfl
  | cons a rest ih =>
    have others := ih fun b member => same b (List.mem_cons_of_mem a member)
    rw [List.findSome?_cons, List.findSome?_cons, same a List.mem_cons_self, others]

theorem find_relative_of_rows (name referrer : String) :
    (ofRows rows).findRelative name referrer =
      ((Scan.siblings name referrer).findSome? (Scan.firstKey rows)).map (Scan.sole .relative) := by
  rw [findRelative, sibling_paths_eq, List.map_findSome?]
  apply find_some_congr
  intro path member
  rw [lookup_of_rows rows (sibling_ne_empty member)]
  rfl

theorem find_suffix_of_rows (name : String) :
    (ofRows rows).findSuffix name =
      (Match.ofCandidates .suffix (Scan.keysEndingIn rows ("/" ++ name ++ ".tsx"))).or
        (Match.ofCandidates .suffix (Scan.keysEndingIn rows ("/" ++ name ++ ".ts"))) := by
  simp only [findSuffix, nameExtensions, List.findSome?_cons, List.findSome?_nil,
    with_suffix_of_rows, String.append_assoc]
  cases Match.ofCandidates .suffix (Scan.keysEndingIn rows ("/" ++ (name ++ ".tsx"))) with
  | some found => rfl
  | none =>
    cases Match.ofCandidates .suffix (Scan.keysEndingIn rows ("/" ++ (name ++ ".ts"))) <;> rfl

theorem find_of_rows (name : String) (referrer : Option String) :
    (ofRows rows).find? name referrer = Scan.find? rows name referrer := by
  by_cases empty : name = ""
  · rw [find?, Scan.find?, if_pos empty, if_pos empty]
  · have exactly : (ofRows rows).findExact name =
        (Scan.firstKey rows name).map (Scan.sole .exact) := by
      rw [findExact, lookup_of_rows rows empty]
      rfl
    have relative : referrer.bind ((ofRows rows).findRelative name) =
        (referrer.bind fun referrer =>
          (Scan.siblings name referrer).findSome? (Scan.firstKey rows)).map
            (Scan.sole .relative) := by
      cases referrer with
      | none => rfl
      | some referrer =>
        rw [Option.bind_some, Option.bind_some]
        exact find_relative_of_rows rows name referrer
    rw [find?, Scan.find?, if_neg empty, if_neg empty, findAnywhere, exactly, relative,
      find_suffix_of_rows, findBasename, named_of_rows]
    simp only [Option.or_assoc]

end Resolver

namespace Manifest

theorem resolver_of_texts {m : Manifest}
    (texts : ∀ e ∈ m.components.entries, ∃ id, e.2.entryId = .str id) :
    m.resolver = .ok (.ofRows (Scan.rowsOf m)) := by
  have each : ∀ e ∈ m.components.entries,
      (e.2.findableId.map fun id => (e.1, id)) = .ok (e.1, some e.2.entryId.text) := by
    intro e member
    obtain ⟨id, text⟩ := texts e member
    simp only [Component.findableId, text]
    rfl
  rw [resolver, map_each_ok each]
  simp only [Resolver.ofRows, Scan.rowsOf, List.map_map]
  rfl

/-- Every name and referrer has the answer of a scan over the components in their order, and the
chosen key is the first candidate. -/
theorem resolution_is_scan (m : Manifest)
    (texts : ∀ e ∈ m.components.entries, ∃ id, e.2.entryId = .str id) :
    ∃ r, m.resolver = .ok r ∧ ∀ name referrer,
      r.find? name referrer = Scan.find? (Scan.rowsOf m) name referrer ∧
        ∀ found, r.find? name referrer = some found →
          found.candidates.head? = some found.key := by
  refine ⟨_, resolver_of_texts texts, ?_⟩
  intro name referrer
  have same := Resolver.find_of_rows (Scan.rowsOf m) name referrer
  refine ⟨same, ?_⟩
  intro found h
  exact Scan.key_is_first_candidate (same ▸ h)

/-- Two keys with one normal form, and a component whose entry id is not its key. -/
def respelled : Manifest where
  components := ⟨[
    ("src\\App.tsx", { entryId := .str "src\\App.tsx" }),
    ("./src/App.tsx", { entryId := .str "./src/App.tsx" }),
    ("start", { entryId := .str "lib/Main.tsx", dependencies := [.str "App"] })], by decide⟩
  generatedAt := .str ""
  version := .str currentVersion

theorem resolution_is_scan_of_respelled :
    (∀ e ∈ respelled.components.entries, ∃ id, e.2.entryId = .str id) ∧
      ∃ r, respelled.resolver = .ok r ∧ ∀ name referrer,
        r.find? name referrer = Scan.find? (Scan.rowsOf respelled) name referrer ∧
          ∀ found, r.find? name referrer = some found →
            found.candidates.head? = some found.key := by
  have texts : ∀ e ∈ respelled.components.entries, ∃ id, e.2.entryId = .str id := by
    simp [respelled]
  exact ⟨texts, resolution_is_scan respelled texts⟩

end Manifest

example : Scan.find? (Scan.rowsOf .respelled) "App" (some "lib/Main.tsx") =
    some ⟨"./src/App.tsx", .suffix, ["./src/App.tsx"]⟩ := by decide +kernel

example : Scan.find? (Scan.rowsOf .respelled) "Main" (some "lib/App.tsx") =
    some ⟨"start", .relative, ["start"]⟩ := by decide +kernel

end ContractGraph
