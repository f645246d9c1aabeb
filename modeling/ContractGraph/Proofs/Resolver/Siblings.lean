import ContractGraph.Proofs.Resolver.Scan

/-!
# Names of files in one directory

A name means a file in the directory of its referrer before any other. That directory is what stands
before the last slash of the normal form of the referrer, and nothing stands there for a referrer
without a directory as well as for one right under the root. So the neighbours of the latter are
looked for outside of the root, and another component may be taken for them.
-/

namespace ContractGraph

set_option autoImplicit false

namespace EntryId

theorem passed_of_plain {cs : List Char} (plain : '/' ∉ cs) :
    ∀ c ∈ cs.reverse, (c != '/') = true := by
  intro c member
  apply bne_iff_ne.mpr
  intro slash
  exact plain (slash ▸ List.mem_reverse.mp member)

theorem directory_chars_append (front : List Char) {back : List Char} (plain : '/' ∉ back) :
    directoryChars (front ++ '/' :: back) = front := by
  rw [directoryChars, List.reverse_append, List.reverse_cons, List.append_assoc,
    List.dropWhile_append_of_pos (passed_of_plain plain)]
  simp

theorem directory_chars_of_plain {cs : List Char} (plain : '/' ∉ cs) : directoryChars cs = [] := by
  rw [directoryChars, List.dropWhile_eq_nil_iff.mpr (passed_of_plain plain)]
  rfl

end EntryId

/-- The normal form of a referrer, taken apart after its last slash if it has one. -/
structure StandsIn (referrer directory : String) : Prop where
  ends : directory = "" ∨ ∃ front, directory = front ++ "/"
  file : ∃ base, EntryId.normalize referrer = directory ++ base ∧ '/' ∉ base.toList

namespace StandsIn

variable {referrer directory : String}

theorem directory_of_none (stands : StandsIn referrer "") :
    EntryId.directory (EntryId.normalize referrer) = "" := by
  obtain ⟨base, spelled, plain⟩ := stands.file
  rw [spelled, String.empty_append, EntryId.directory, EntryId.directory_chars_of_plain plain]

theorem directory_of_front {front : String} (stands : StandsIn referrer (front ++ "/")) :
    EntryId.directory (EntryId.normalize referrer) = front := by
  obtain ⟨base, spelled, plain⟩ := stands.file
  have parts : (front ++ "/" ++ base).toList = front.toList ++ '/' :: base.toList := by simp
  rw [spelled, EntryId.directory, parts, EntryId.directory_chars_append _ plain, String.ofList_toList]

/-- Where the directory is not the root, a name is looked for in the directory. -/
theorem siblings_eq (stands : StandsIn referrer directory) (below : directory ≠ "/")
    (name : String) : Scan.siblings name referrer =
      [".tsx", ".ts", "/index.tsx", "/index.ts"].map fun suffix => directory ++ name ++ suffix := by
  rcases stands.ends with rfl | ⟨front, rfl⟩
  · simp [Scan.siblings, stands.directory_of_none]
  · have inside : front ≠ "" := by
      intro empty
      exact below (by rw [empty, String.empty_append])
    simp only [Scan.siblings, stands.directory_of_front, if_neg inside]

/-- Right under the root a name is looked for where it is for a referrer that is nowhere. -/
theorem siblings_under_root (stands : StandsIn referrer "/") (name : String) :
    Scan.siblings name referrer = Scan.siblings name "" := by
  have cut : EntryId.directory (EntryId.normalize referrer) = "" := stands.directory_of_front
  rw [Scan.siblings, cut]
  rfl

end StandsIn

namespace Scan

/-- A normal form that some key has leads to a key. -/
theorem first_key_of_spelled {rows : List (String × String)} {id key : String}
    (member : key ∈ rows.map (·.1)) (spelled : EntryId.normalize key = EntryId.normalize id) :
    ∃ first ∈ rows.map (·.1), firstKey rows id = some first ∧
      EntryId.normalize first = EntryId.normalize id := by
  obtain ⟨row, listed, rfl⟩ := List.mem_map.mp member
  have found : (rows.find? fun row => EntryId.normalize row.1 == EntryId.normalize id).isSome :=
    List.find?_isSome.mpr ⟨row, listed, beq_iff_eq.mpr spelled⟩
  obtain ⟨chosen, here⟩ := Option.isSome_iff_exists.mp found
  refine ⟨chosen.1, List.mem_map_of_mem (List.mem_of_find?_eq_some here), ?_, ?_⟩
  · rw [firstKey, here]
    rfl
  · have same := List.find?_some here
    exact eq_of_beq same

end Scan

namespace Manifest

/-- Every name that some key has in a directory, with the first of the extensions, means such a key
for the referrer. -/
def SiblingsWin (m : Manifest) (directory referrer : String) : Prop :=
  ∃ r, m.resolver = .ok r ∧ ∀ name, name ≠ "" →
    (∃ key ∈ m.components.keys,
      EntryId.normalize key = EntryId.normalize (directory ++ name ++ ".tsx")) →
    ∃ found, r.find? name (some referrer) = some found ∧ found.tier = .relative ∧
      found.key ∈ m.components.keys ∧
      EntryId.normalize found.key = EntryId.normalize (directory ++ name ++ ".tsx")

theorem siblings_win {m : Manifest} {directory referrer : String}
    (texts : ∀ e ∈ m.components.entries, ∃ id, e.2.entryId = .str id)
    (stands : StandsIn referrer directory) (below : directory ≠ "/") :
    m.SiblingsWin directory referrer := by
  have keys : (Scan.rowsOf m).map (·.1) = m.components.keys := by
    rw [Scan.rowsOf, List.map_map]
    rfl
  refine ⟨_, resolver_of_texts texts, ?_⟩
  intro name named given
  obtain ⟨key, member, spelled⟩ := given
  rw [← keys] at member
  obtain ⟨first, listed, found, same⟩ := Scan.first_key_of_spelled member spelled
  refine ⟨Scan.sole .relative first, ?_, rfl, keys ▸ listed, same⟩
  rw [Resolver.find_of_rows, Scan.find?, if_neg named, Option.bind_some,
    stands.siblings_eq below, List.map_cons, List.findSome?_cons, found]
  rfl

/-- An absolute project with a button beside the app and another one in a folder. -/
def underRoot : Manifest where
  components := ⟨[
    ("/App.tsx", { entryId := .str "/App.tsx", dependencies := [.str "Button"] }),
    ("/lib/Button.tsx", { entryId := .str "/lib/Button.tsx" }),
    ("/Button.tsx", { entryId := .str "/Button.tsx" })], by decide⟩
  generatedAt := .str ""
  version := .str currentVersion

theorem under_root_texts :
    ∀ e ∈ underRoot.components.entries, ∃ id, e.2.entryId = .str id := by
  simp [underRoot]

/-- The app takes the button in the folder, which comes first, for the one that stands beside it. -/
theorem find_button_under_root {referrer : String} (stands : StandsIn referrer "/") :
    Scan.find? (Scan.rowsOf underRoot) "Button" (some referrer) =
      some ⟨"/lib/Button.tsx", .suffix, ["/lib/Button.tsx", "/Button.tsx"]⟩ := by
  have nowhere : Scan.find? (Scan.rowsOf underRoot) "Button" (some "") =
      some ⟨"/lib/Button.tsx", .suffix, ["/lib/Button.tsx", "/Button.tsx"]⟩ := by decide +kernel
  rw [← nowhere, Scan.find?, Scan.find?, Option.bind_some, Option.bind_some,
    stands.siblings_under_root]

theorem siblings_passed_over {referrer : String} (stands : StandsIn referrer "/") :
    ¬ underRoot.SiblingsWin "/" referrer := by
  intro wins
  obtain ⟨r, made, each⟩ := wins
  rw [resolver_of_texts under_root_texts] at made
  cases made
  obtain ⟨found, means, tier, -⟩ :=
    each "Button" (by decide) ⟨"/Button.tsx", by decide +kernel, by decide +kernel⟩
  rw [Resolver.find_of_rows, find_button_under_root stands] at means
  cases means
  cases tier

/-- In every manifest the files in the directory of a referrer are found before all others, exactly
when that directory is not the root. -/
theorem siblings_win_iff {directory referrer : String} (stands : StandsIn referrer directory) :
    (∀ m : Manifest, (∀ e ∈ m.components.entries, ∃ id, e.2.entryId = .str id) →
      m.SiblingsWin directory referrer) ↔ directory ≠ "/" := by
  constructor
  · intro always root
    subst root
    exact siblings_passed_over stands (always underRoot under_root_texts)
  · intro below m texts
    exact siblings_win texts stands below

theorem siblings_win_iff_of_drive :
    StandsIn "C:\\src\\.\\App.tsx" "c:/src/" ∧
      ((∀ m : Manifest, (∀ e ∈ m.components.entries, ∃ id, e.2.entryId = .str id) →
        m.SiblingsWin "c:/src/" "C:\\src\\.\\App.tsx") ↔ "c:/src/" ≠ "/") := by
  have stands : StandsIn "C:\\src\\.\\App.tsx" "c:/src/" :=
    ⟨.inr ⟨"c:/src", by decide⟩, "App.tsx", by decide +kernel, by decide⟩
  exact ⟨stands, siblings_win_iff stands⟩

theorem neighbour_of_root_passed_over :
    StandsIn "/App.tsx" "/" ∧ "/Button.tsx" ∈ underRoot.components.keys ∧
      (∃ r, underRoot.resolver = .ok r ∧ r.find? "Button" (some "/App.tsx") =
        some ⟨"/lib/Button.tsx", .suffix, ["/lib/Button.tsx", "/Button.tsx"]⟩) ∧
      ¬ underRoot.SiblingsWin "/" "/App.tsx" := by
  have stands : StandsIn "/App.tsx" "/" :=
    ⟨.inr ⟨"", by decide⟩, "App.tsx", by decide +kernel, by decide⟩
  refine ⟨stands, by decide +kernel, ⟨_, resolver_of_texts under_root_texts, ?_⟩, ?_⟩
  · rw [Resolver.find_of_rows]
    exact find_button_under_root stands
  · exact siblings_passed_over stands

end Manifest

end ContractGraph
