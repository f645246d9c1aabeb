import ContractGraph.Manifest.File
import ContractGraph.Manifest.Similar
import ContractGraph.Manifest.Stats
import ContractGraph.Proofs.Collection.Agree
import ContractGraph.Proofs.Files.Written
import ContractGraph.Proofs.Json.Ascii
import ContractGraph.Proofs.Json.ReadBack
import ContractGraph.Proofs.Manifest.Document
import ContractGraph.Proofs.Manifest.Texts

/-!
# Saved manifests

A manifest that was built and then written into a folder is loaded from that folder as it was, but
for its warnings. Nothing that is asked of a manifest depends on its warnings, so the loaded one
answers every question alike.
-/

namespace ContractGraph

set_option autoImplicit false

namespace Manifest

variable {m : Manifest} {folder : String} {t t' : FileTree} {failure : Option SystemError}
  {path : Location}

theorem parent_of_file (base : Location) : (base.child fileName).parent = base := by
  have name : Location.ofText fileName = ⟨0, [fileName]⟩ := by decide
  rw [Location.child, name, Location.join, if_pos rfl, Location.parent, List.dropLast_concat]

theorem write_parts (written : (m.write folder t failure).outcome = .ok (path, t')) :
    Binary64.decimalLength m.components.size ≤ Json.maxDigits ∧
      path = (Location.ofText folder).child fileName ∧
      t.writeText path m.toDocument.indented = .ok t' := by
  simp only [write] at written
  split at written
  · cases written
  next few =>
  cases failure with
  | some e => cases written
  | none =>
    simp only at written
    split at written
    · cases written
    · cases written
    · next own done =>
      cases written
      exact ⟨by omega, rfl, done⟩

/-- What is read as a document of a manifest is loaded from the folder of its file. -/
theorem load_of_text {m' : Manifest} {text : String}
    (found : t.isFolder (.ofText folder) = .ok true)
    (there : t.readText ((Location.ofText folder).child fileName) = .ok text)
    (read : Json.read text = .ok m.toDocument) (parsed : ofDocument m.toDocument = .ok m') :
    load t folder = .ok m' := by
  have file : fileAt t (.ofText folder) = .ok ((Location.ofText folder).child fileName) := by
    rw [fileAt, found]
    rfl
  have object : ∃ fields, m.toDocument = .obj fields := ⟨_, rfl⟩
  obtain ⟨fields, object⟩ := object
  rw [object] at read parsed
  rw [load, file]
  simp only [there, read, parsed]
  rfl

theorem walk_without_warnings (m : Manifest) (entryId : String) (limits : Limits) :
    Collection.walk { m with warnings := [] } entryId limits =
      Collection.walk m entryId limits := by
  have sameResolver : resolver { m with warnings := [] } = m.resolver := rfl
  rw [Collection.walk, Collection.walk, sameResolver]
  cases m.resolver with
  | error fault => rfl
  | ok r =>
    have agree : (Collection.Scope.mk { m with warnings := [] } r
        (limits.room m.components.size)).Agree ⟨m, r, limits.room m.components.size⟩ :=
      ⟨rfl, fun _ => rfl, fun _ => rfl, fun _ _ _ => rfl⟩
    exact agree.walk_levels _ _ _ _ _

theorem collect_without_warnings (m : Manifest) (entry : Json) (limits : Limits) :
    collectGiven { m with warnings := [] } entry limits = m.collectGiven entry limits := by
  cases entry with
  | str entryId =>
    rw [collectGiven, collectGiven, collect, collect, walk_without_warnings]
  | _ => rfl

/-- A manifest that was built is written as ASCII text, and loading the folder gives it back with all
its components, roots, leaves and buckets in their order. Names, collections, similar components and
statistics are the same. -/
theorem load_written {now : String} {hasher : Hasher} {withIndex : Bool} {contracts : List Contract}
    (texts : hasher.GivesTexts) (built : (build now hasher withIndex contracts).outcome = .ok m)
    (written : (m.write folder t failure).outcome = .ok (path, t')) :
    t'.readText path = .ok m.toDocument.indented ∧
      (∀ c ∈ m.toDocument.indented.toList, Json.IsAscii c) ∧
      ∃ m', load t' folder = .ok m' ∧ m' = { m with warnings := [] } ∧
        (∃ r r', m.resolver = .ok r ∧ m'.resolver = .ok r' ∧
          ∀ name referrer, r'.findGiven name referrer = r.findGiven name referrer) ∧
        (∀ entry limits, m'.collectGiven entry limits = m.collectGiven entry limits) ∧
        (∀ key, m'.similarGiven key = m.similarGiven key) ∧
        ∀ limit, m'.stats limit = m.stats limit := by
  obtain ⟨few, rfl, done⟩ := write_parts written
  have readable : Json.Readable Json.maxDigits Json.maxNesting m.toDocument :=
    ((build_holds_texts texts built).readable few).widen (Nat.le_refl _) (by decide)
  have ascii : ∀ c ∈ m.toDocument.indented.toList, Json.IsAscii c := by
    rw [Json.indented, String.toList_ofList]
    exact Json.indented_ascii.write readable 0
  have clear : '\r' ∉ m.toDocument.indented.toList := by
    intro member
    exact absurd (ascii _ member) (by decide)
  have there := FileTree.read_text_written done clear
  have found := FileTree.folder_of_written done
  rw [parent_of_file] at found
  have loaded := load_of_text found there (Json.read_indented readable) m.of_document_to_document
  have resolver := (build_built built).resolver_eq
  refine ⟨there, ascii, _, loaded, rfl, ⟨_, _, resolver, resolver, ?_⟩,
    m.collect_without_warnings, fun key => ?_, fun limit => rfl⟩
  · intro name referrer
    rfl
  · cases key <;> rfl

/-- Ids outside ASCII and outside the basic plane, a resolved name and a missing one. -/
def accented : List Contract := [
  { entryId := "src/é.tsx", composition := { components := ["😀", "react"] }, source := .null },
  { entryId := "lib/😀.tsx", description := "\"\r\n", source := .null }]

theorem load_written_of_accented :
    (Hasher.constant (.str "s") (.str "g")).GivesTexts ∧
      ∃ m, (build "now" (.constant (.str "s") (.str "g")) true accented).outcome = .ok m ∧
        m.components.keys = ["src/é.tsx", "lib/😀.tsx"] ∧
        ∃ path t', (m.write "" .empty).outcome = .ok (path, t') ∧
          t'.readText path = .ok m.toDocument.indented ∧
          ∃ m', load t' "" = .ok m' ∧ m' = { m with warnings := [] } ∧
            ∀ entry limits, m'.collectGiven entry limits = m.collectGiven entry limits := by
  have texts := Hasher.constant_gives_texts "s" "g"
  have runs : (do
      let m ← build "now" (.constant (.str "s") (.str "g")) true accented
      let _ ← m.write "" .empty
      pure m.components.keys : Logged (List String)).outcome =
        .ok ["src/é.tsx", "lib/😀.tsx"] := by decide +kernel
  obtain ⟨m, built, runs⟩ := Logged.ok_of_bind runs
  obtain ⟨⟨path, t'⟩, written, keys⟩ := Logged.ok_of_bind runs
  obtain ⟨there, -, m', loaded, same, -, collected, -⟩ := load_written texts built written
  exact ⟨texts, m, built, Except.ok.inj keys, path, t', written, there, m', loaded, same, collected⟩

end Manifest

end ContractGraph
