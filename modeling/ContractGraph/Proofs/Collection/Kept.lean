import ContractGraph.Collection.Basic
import ContractGraph.Proofs.Outcome

/-!
# What a walk keeps

A walk changes in three ways: it visits a key that was looked up and not visited before, it reports an
entry that is not found, and it reports a dependency that means nothing. What these keep holds at the
end of every walk that ends, whatever the components hold.
-/

namespace ContractGraph.Collection

set_option autoImplicit false

/-- A property of walks that each change of a walk keeps. -/
structure Scope.Keeps (s : Scope) (P : Walk → Prop) : Prop where
  visit : ∀ {w : Walk} {id key : String} (level : Nat), P w → s.resolver.lookup id = some key →
    w.hasVisited key = false → P (w.visit key level)
  entry : ∀ {w w' : Walk} {id : String}, P w → s.resolver.lookup id = none →
    w.report { name := .str id, reason := .entryNotFound } = .ok w' → P w'
  dependency : ∀ {w w' : Walk} {key : String} {name : Json}, P w → name ∈ s.dependenciesOf key →
    s.resolver.findValue name key = .ok none →
    w.report { name, reason := .noContract, referrer := some key, packageName := packageOf name } =
      .ok w' → P w'

namespace Scope.Keeps

variable {s : Scope} {P : Walk → Prop} {w w' : Walk}

theorem follow (keeps : s.Keeps P) {key : String} {name : Json} {next next' : List String}
    (start : P w) (listed : name ∈ s.dependenciesOf key)
    (done : followDependency s.resolver key (w, next) name = .ok (w', next')) : P w' := by
  obtain ⟨target?, found, done⟩ := ok_of_bind done
  cases target? with
  | some target =>
    simp only at done
    split at done
    · cases done
      exact start
    · cases done
      exact start
  | none =>
    obtain ⟨reported, report, done⟩ := ok_of_bind done
    cases done
    exact keeps.dependency start listed found report

theorem walk_level (keeps : s.Keeps P) {level : Nat} {last : Bool} {queue next : List String}
    {ending : LevelEnd} (start : P w)
    (run : walkLevel s level last queue w next = .ok (w', ending)) : P w' := by
  induction queue generalizing w next with
  | nil =>
    cases run
    exact start
  | cons id rest ih =>
    rw [walkLevel] at run
    cases known : w.hasVisited ((s.resolver.lookup id).getD id) with
    | true =>
      rw [if_pos known] at run
      exact ih start run
    | false =>
      rw [if_neg (by simp [known])] at run
      by_cases full : s.room ≤ w.visited.length
      · rw [if_pos full] at run
        cases run
        exact start
      · rw [if_neg full] at run
        rcases here : s.resolver.lookup id with _ | key
        · simp only [here] at run
          obtain ⟨reported, report, run⟩ := ok_of_bind run
          exact ih (keeps.entry start here report) run
        · rw [here, Option.getD_some] at known
          have visited := keeps.visit level start here known
          simp only [here] at run
          cases last with
          | true => exact ih visited run
          | false =>
            obtain ⟨⟨after, queued⟩, followed, run⟩ := ok_of_bind run
            have kept : P after := fold_keeps (fun state : Walk × List String => P state.1)
              (fun _ listed _ _ before done => keeps.follow before listed done) visited followed
            exact ih kept run

theorem walk_levels (keeps : s.Keeps P) {reached : Bool} {below level : Nat}
    {queue : List String} {dropped? : Option Nat} (start : P w)
    (run : walkLevels s reached below level queue w = .ok (w', dropped?)) : P w' := by
  induction below generalizing level queue w with
  | zero =>
    obtain ⟨⟨after, ending⟩, here, run⟩ := ok_of_bind run
    have kept := keeps.walk_level start here
    cases ending with
    | complete next =>
      cases run
      exact kept
    | cut dropped =>
      cases run
      exact kept
  | succ below ih =>
    obtain ⟨⟨after, ending⟩, here, run⟩ := ok_of_bind run
    have kept := keeps.walk_level start here
    cases ending with
    | complete next =>
      cases next with
      | nil =>
        cases run
        exact kept
      | cons id rest => exact ih kept run
    | cut dropped =>
      cases run
      exact kept

end Scope.Keeps

end ContractGraph.Collection
