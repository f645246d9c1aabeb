import ContractGraph.Proofs.Collection.Kept
import ContractGraph.Proofs.Collection.Order
import ContractGraph.Proofs.Occurrences

/-!
# What a collection accounts for

Within any limits, fractional and infinite ones included, no key is visited twice, visited keys are
found under themselves, and what is reported as missing is reported once and is found nowhere. So
no visited key is reported as missing.
-/

namespace ContractGraph

set_option autoImplicit false

namespace Collection

/-- What holds of a walk at every moment. -/
structure Accounted (r : Resolver) (w : Walk) : Prop where
  distinct : w.seen.Nodup
  found : ∀ key ∈ w.seen, ∃ id, r.lookup id = some key
  once : (w.missing.map (·.name)).Nodup
  absent : ∀ d ∈ w.missing, ∃ name, d.name = .str name ∧ r.lookup name = none
  looked_for : ∀ d ∈ w.missing, d.reason ≠ .contractNotLoaded

/-- A name that means nothing is not the id of a component. -/
theorem lookup_of_unresolved {r : Resolver} {name : String} {referrer : Option String}
    (nothing : r.resolve name referrer = none) : r.lookup name = none := by
  have unmatched : r.find? name referrer = none := Option.map_eq_none_iff.mp nothing
  by_cases empty : name = ""
  · rw [Resolver.lookup, if_pos empty]
  · rw [Resolver.find?, if_neg empty] at unmatched
    have anywhere : r.findAnywhere name = none := (Option.or_eq_none_iff.mp unmatched).2
    have exactly : r.findExact name = none := (Option.or_eq_none_iff.mp anywhere).1
    exact Option.map_eq_none_iff.mp exactly

namespace Accounted

variable {r : Resolver} {w : Walk}

theorem initial (r : Resolver) : Accounted r {} where
  distinct := List.nodup_nil
  found key member := by cases member
  once := List.nodup_nil
  absent d member := by cases member
  looked_for d member := by cases member

theorem visit (a : Accounted r w) {id key : String} (found : r.lookup id = some key)
    (fresh : key ∉ w.seen) (level : Nat) : Accounted r (w.visit key level) := by
  have seen : (w.visit key level).seen = w.seen ++ [key] := by simp [Walk.seen, Walk.visit]
  refine ⟨?_, ?_, a.once, a.absent, a.looked_for⟩
  · rw [seen]
    exact append_fresh a.distinct fresh
  · intro other member
    rw [seen] at member
    rcases List.mem_append.mp member with before | here
    · exact a.found other before
    · exact ⟨id, (List.mem_singleton.mp here) ▸ found⟩

theorem reported (a : Accounted r w) {d : MissingDependency} {name : String}
    (text : d.name = .str name) (nowhere : r.lookup name = none)
    (reason : d.reason ≠ .contractNotLoaded) : Accounted r (w.reported d) := by
  by_cases known : ((w.missing.map (·.name)).any fun other => other.same d.name) = true
  · rw [Walk.reported, if_pos known]
    exact a
  · have added : w.reported d = { w with missing := w.missing ++ [d] } := if_neg known
    have fresh : d.name ∉ w.missing.map (·.name) := by
      intro before
      apply known
      exact List.any_eq_true.mpr ⟨d.name, before, by simp [text]⟩
    rw [added]
    refine ⟨a.distinct, a.found, ?_, ?_, ?_⟩
    · rw [List.map_append]
      exact append_fresh a.once fresh
    · intro e member
      rcases List.mem_append.mp member with before | here
      · exact a.absent e before
      · exact ⟨name, (List.mem_singleton.mp here) ▸ text, nowhere⟩
    · intro e member
      rcases List.mem_append.mp member with before | here
      · exact a.looked_for e before
      · exact (List.mem_singleton.mp here) ▸ reason

/-- A walk over components whose dependencies are names keeps the account. -/
theorem kept {s : Scope} (names : ∀ key, s.dependenciesOf key = (s.namesOf key).map .str) :
    s.Keeps (Accounted s.resolver) where
  visit := by
    intro w id key level a found fresh
    refine a.visit found ?_ level
    rw [← w.has_visited_iff, fresh]
    exact Bool.false_ne_true
  entry := by
    intro w w' id a absent report
    rw [Walk.report_text w rfl] at report
    cases report
    exact a.reported rfl absent MissingReason.noConfusion
  dependency := by
    intro w w' key name a listed nothing report
    rw [names] at listed
    obtain ⟨text, -, rfl⟩ := List.mem_map.mp listed
    have unmatched : s.resolver.find? text (some key) = none := Except.ok.inj nothing
    have unresolved : s.resolver.resolve text (some key) = none := Option.map_eq_none_iff.mpr unmatched
    rw [Walk.report_text w rfl] at report
    cases report
    exact a.reported rfl (lookup_of_unresolved unresolved) MissingReason.noConfusion

end Accounted

end Collection

namespace Manifest

variable {contracts : List Contract} {m : Manifest}

theorem collect_walk {entryId : String} {limits : Limits} {c : Collection}
    (collected : (m.collect entryId limits).outcome = .ok c) :
    ∃ w dropped?, Collection.walk m entryId limits = .ok (w, dropped?) ∧
      c = { entryId := .str entryId, visited := w.visited, missing := w.missing,
            truncated := dropped?.isSome } := by
  rcases run : Collection.walk m entryId limits with fault | ⟨w, dropped?⟩
  · rw [collect, run] at collected
    cases collected
  · refine ⟨w, dropped?, rfl, ?_⟩
    rw [collect, run] at collected
    cases dropped? with
    | none =>
      cases collected
      rfl
    | some dropped =>
      cases collected
      rfl

/-- Within any limits a collection visits keys that are found under themselves, each once, and
reports names that are found nowhere, each once. -/
theorem Built.collect_accounts (b : Built contracts m) {entryId : String} {limits : Limits}
    {c : Collection} (collected : (m.collect entryId limits).outcome = .ok c) :
    c.visitedIds.Nodup ∧
      (∀ key ∈ c.visitedIds, (Resolver.ofKeys m.components.keys).lookup key = some key) ∧
      (∀ d ∈ c.missing, d.reason ≠ .contractNotLoaded) ∧
      ∃ names : List String, c.missing.map (·.name) = names.map .str ∧ names.Nodup ∧
        ∀ name ∈ names, (Resolver.ofKeys m.components.keys).lookup name = none := by
  obtain ⟨w, dropped?, run, rfl⟩ := collect_walk collected
  rw [Collection.walk, b.resolver_eq] at run
  have account : Collection.Accounted (Resolver.ofKeys m.components.keys) w :=
    (Collection.Accounted.kept (s := m.scope _) (b.dependencies_of _)).walk_levels
      (Collection.Accounted.initial _) run
  have texts : w.missing.map (·.name) = (w.missing.map (·.name.text)).map .str := by
    rw [List.map_map]
    apply List.map_congr_left
    intro d member
    obtain ⟨name, text, -⟩ := account.absent d member
    simp [text, Json.text]
  refine ⟨account.distinct, ?_, account.looked_for, _, texts, ?_, ?_⟩
  · intro key member
    obtain ⟨id, found⟩ := account.found key member
    exact Resolver.lookup_found found
  · exact List.Pairwise.of_map Json.str (fun _ _ apart equal => apart (congrArg Json.str equal))
      (texts ▸ account.once)
  · intro name member
    obtain ⟨d, reported, rfl⟩ := List.mem_map.mp member
    obtain ⟨name, text, nowhere⟩ := account.absent d reported
    rw [text]
    exact nowhere

end Manifest

end ContractGraph
