import ContractGraph.Manifest.File
import ContractGraph.Proofs.Collection.Account

/-!
# Walks that complete

A manifest that was loaded holds whatever its file holds. Its resolver is there when every component
has an id to be found by, or none at all; and a walk completes when every dependency of a component
that can be visited can be followed. A text always can be. Another value can be when it counts as
nothing and can be a key, or when it counts as something and its text means a file beside the
component.
-/

namespace ContractGraph

set_option autoImplicit false

/-- The id is a text, or a scalar that counts as nothing. -/
def Component.Findable (c : Component) : Prop :=
  (∃ id, c.entryId = .str id) ∨ c.entryId.truthy = false ∧ c.entryId.toKey?.isSome

/-- A dependency under a key that can be followed. -/
def Resolver.CanFollow (r : Resolver) (key : String) : Json → Prop
  | .str _ => True
  | v => if v.truthy then (r.findRelative v.text key).isSome else v.toKey?.isSome

/-- Every component can be found or has no id, and what is found can be followed. -/
structure Manifest.Walkable (m : Manifest) : Prop where
  findable : ∀ e ∈ m.components.entries, e.2.Findable
  followed : ∀ r, m.resolver = .ok r → ∀ id key, r.lookup id = some key →
    ∀ c, m.components.get? key = some c → ∀ name ∈ c.dependencies, r.CanFollow key name

theorem Json.as_key_ok_iff {v : Json} : (∃ k, v.asKey = .ok k) ↔ v.toKey?.isSome := by
  rw [asKey]
  cases v.toKey? <;> simp

theorem Component.findable_iff (c : Component) :
    (∃ id, c.findableId = .ok id) ↔ c.Findable := by
  have nothing : ∀ v : Json, (∃ id : Option String, (if v.truthy then
      .error (.noAttribute v.shape "replace") else v.asKey.map fun _ => none) = .ok id) ↔
      v.truthy = false ∧ v.toKey?.isSome := by
    intro v
    rw [← Json.as_key_ok_iff]
    cases v.truthy with
    | true => simp
    | false => cases v.asKey <;> simp [Except.map]
  rw [Findable, findableId]
  cases c.entryId with
  | str id => simp
  | _ => exact (nothing _).trans (or_iff_right (by simp)).symm

theorem Resolver.can_follow_iff (r : Resolver) {key : String} {name : Json} :
    r.CanFollow key name ↔
      ∃ found, r.findValue name key = .ok found ∧ (found = none → name.toKey?.isSome) := by
  unfold CanFollow
  split
  · exact iff_of_true trivial ⟨_, rfl, fun _ => rfl⟩
  · next other =>
    rw [findValue]
    swap
    · exact other
    cases name.truthy with
    | true => cases r.findRelative name.text key <;> simp
    | false => simp

theorem Manifest.resolver_ok_iff {m : Manifest} :
    (∃ r, m.resolver = .ok r) ↔ ∀ e ∈ m.components.entries, e.2.Findable := by
  have ids : (∃ r, m.resolver = .ok r) ↔ ∃ ids, (m.components.entries.mapM fun e =>
      e.2.findableId.map fun id => (e.1, id)) = .ok ids := by
    rw [resolver]
    cases m.components.entries.mapM fun e => e.2.findableId.map fun id => (e.1, id) <;>
      simp [bind, Except.bind, pure, Except.pure]
  rw [ids, exists_map_ok_iff]
  refine forall₂_congr ?_
  intro e _
  rw [← Component.findable_iff]
  cases e.2.findableId <;> simp [Except.map]

namespace Collection

variable {r : Resolver} {key : String}

theorem report_ok_iff {w : Walk} {d : MissingDependency} :
    (∃ w', w.report d = .ok w') ↔ d.name.toKey?.isSome := by
  rw [Walk.report, Json.amongKeys]
  cases d.name.toKey? with
  | none => simp [bind, Except.bind]
  | some k =>
    simp only [bind, Except.bind, Option.isSome_some, iff_true]
    split
    · exact ⟨_, rfl⟩
    · exact ⟨_, rfl⟩

/-- Whether a dependency can be followed does not depend on what the walk has met. -/
theorem follow_ok_iff (name : Json) (state : Walk × List String) :
    (∃ state', followDependency r key state name = .ok state') ↔ r.CanFollow key name := by
  rw [r.can_follow_iff, followDependency]
  cases r.findValue name key with
  | error fault => simp [bind, Except.bind]
  | ok found =>
    cases found with
    | some target =>
      simp only [bind, Except.bind, Except.ok.injEq, exists_eq_left', reduceCtorEq,
        false_implies, iff_true]
      split
      · exact ⟨_, rfl⟩
      · exact ⟨_, rfl⟩
    | none =>
      have reported := report_ok_iff (w := state.1) (d := {
        name, reason := .noContract, referrer := some key, packageName := packageOf name })
      simp only [bind, Except.bind, Except.ok.injEq, exists_eq_left', forall_const, ← reported]
      cases state.1.report _ <;> simp [pure, Except.pure]

variable {s : Scope}

/-- Everything that can be visited has dependencies that can be followed. -/
def Scope.Followed (s : Scope) : Prop :=
  ∀ id key, s.resolver.lookup id = some key → ∀ name ∈ s.dependenciesOf key,
    s.resolver.CanFollow key name

/-- A level is walked to its end or cut, whatever was met before. -/
theorem Scope.Followed.walk_level (followed : s.Followed) (level : Nat) (last : Bool)
    (queue : List String) (w : Walk) (next : List String) :
    ∃ result, walkLevel s level last queue w next = .ok result := by
  induction queue generalizing w next with
  | nil => exact ⟨_, rfl⟩
  | cons id queue ih =>
    rw [walkLevel]
    dsimp only
    split
    · exact ih w next
    · split
      · exact ⟨_, rfl⟩
      · cases found : s.resolver.lookup id with
        | none =>
          let absent : MissingDependency := { name := .str id, reason := .entryNotFound }
          obtain ⟨w', reported⟩ := (report_ok_iff (w := w) (d := absent)).mpr rfl
          obtain ⟨result, walked⟩ := ih w' next
          exact ⟨result, by rw [← walked]; exact congrArg (· >>= _) reported⟩
        | some key =>
          dsimp only
          split
          · exact ih _ next
          · obtain ⟨state, followed⟩ := (fold_ok_iff follow_ok_iff (w.visit key level, next)).mpr
              (followed id key found)
            rw [followed]
            exact ih state.1 state.2

theorem Scope.Followed.walk_levels (followed : s.Followed) (reached : Bool) (below level : Nat)
    (queue : List String) (w : Walk) :
    ∃ result, walkLevels s reached below level queue w = .ok result := by
  induction below generalizing level queue w with
  | zero =>
    obtain ⟨⟨w', done⟩, walked⟩ := followed.walk_level level reached queue w []
    rw [walkLevels, walked]
    cases done with
    | complete next => exact ⟨_, rfl⟩
    | cut dropped => exact ⟨_, rfl⟩
  | succ below ih =>
    obtain ⟨⟨w', done⟩, walked⟩ := followed.walk_level level false queue w []
    rw [walkLevels, walked]
    cases done with
    | complete next =>
      cases next with
      | nil => exact ⟨_, rfl⟩
      | cons id rest => exact ih (level + 1) (id :: rest) w'
    | cut dropped => exact ⟨_, rfl⟩

end Collection

namespace Manifest

variable {m : Manifest}

theorem Walkable.collect_ok (walkable : m.Walkable) (entryId : String) (limits : Limits) :
    ∃ c, (m.collect entryId limits).outcome = .ok c := by
  obtain ⟨r, resolver⟩ := resolver_ok_iff.mpr walkable.findable
  have followed : (Collection.Scope.mk m r (limits.room m.components.size)).Followed := by
    intro id key found name listed
    rw [Collection.Scope.dependenciesOf] at listed
    dsimp only at listed
    cases here : m.components.get? key with
    | none => simp [here] at listed
    | some c =>
      rw [here] at listed
      exact walkable.followed r resolver id key found c here name listed
  obtain ⟨⟨w, dropped?⟩, walked⟩ := followed.walk_levels (!limits.depth.isFractional)
    (limits.levels m.components.size) 0 [entryId] {}
  have run : Collection.walk m entryId limits = .ok (w, dropped?) := by
    rw [Collection.walk, resolver]
    exact walked
  rw [collect, run]
  cases dropped? with
  | none => exact ⟨_, rfl⟩
  | some dropped => exact ⟨_, rfl⟩

/-- A walk of one level with room for one component follows every dependency of its entry. -/
theorem followed_of_collect {r : Resolver} (resolver : m.resolver = .ok r) {id key : String}
    (found : r.lookup id = some key) {c : Component} (here : m.components.get? key = some c)
    {collected : Collection} (done : (m.collect id (.counts 1 1 le_rfl)).outcome = .ok collected) :
    ∀ name ∈ c.dependencies, r.CanFollow key name := by
  obtain ⟨w, dropped?, run, -⟩ := collect_walk done
  have levels : (Limits.counts 1 1 le_rfl).levels m.components.size = 1 :=
    Limits.levels_of_whole rfl _
  have room : (Limits.counts 1 1 le_rfl).room m.components.size = 1 := Limits.room_of_whole rfl _
  rw [Collection.walk, resolver] at run
  simp only [bind, Except.bind, levels, room, Collection.walkLevels] at run
  obtain ⟨⟨w', ending⟩, first, -⟩ := ok_of_bind run
  rw [Collection.walkLevel] at first
  simp only [found, Collection.Walk.hasVisited, List.any_nil, Bool.false_eq_true, if_false,
    List.length_nil] at first
  obtain ⟨state, followed, -⟩ := ok_of_bind first
  rw [Collection.Scope.dependenciesOf] at followed
  simp only [here, Option.map_some, Option.getD_some] at followed
  exact (fold_ok_iff Collection.follow_ok_iff _).mp ⟨state, followed⟩

/-- The resolver is there and every walk completes exactly when the manifest can be walked. -/
theorem completes_iff_walkable (m : Manifest) :
    ((∃ r, m.resolver = .ok r) ∧ ∀ (entryId : String) (depth nodes : Nat) (room : 1 ≤ nodes),
        ∃ c, (m.collect entryId (.counts depth nodes room)).outcome = .ok c) ↔ m.Walkable := by
  constructor
  · rintro ⟨resolves, completes⟩
    constructor
    case findable => exact resolver_ok_iff.mp resolves
    case followed =>
      intro r resolver id key found c here
      obtain ⟨collected, done⟩ := completes id 1 1 le_rfl
      exact followed_of_collect resolver found here done
  · intro walkable
    refine ⟨resolver_ok_iff.mpr walkable.findable, ?_⟩
    intro entryId depth nodes room
    exact walkable.collect_ok entryId (.counts depth nodes room)

/-- A file with a component whose id is a number. -/
def numbered : FileTree where
  nodes := .ofList [(["m.json"], .file
    "\x7b\"components\":\x7b\"a.tsx\":\x7b\"entryId\":5\x7d\x7d\x7d".toUTF8)]
  named := by decide +kernel
  closed := by decide +kernel

/-- The file is loaded, and the manifest has no resolver and no walk. -/
theorem numbered_loads :
    ∃ m, load numbered "m.json" = .ok m ∧ m.resolver = .error (.noAttribute .int "replace") ∧
      (m.collect "a.tsx" (.counts 1 1 le_rfl)).outcome =
        .error (.shape (.noAttribute .int "replace")) := by
  have loads : load numbered "m.json" = .ok {
      components := .ofList [("a.tsx", { entryId := .int 5 })]
      generatedAt := .str ""
      version := .str "0.3" } := by decide +kernel
  exact ⟨_, loads, rfl, by decide +kernel⟩

/-- A manifest that was built from contracts can be walked. -/
theorem Built.walkable {contracts : List Contract} (b : Built contracts m) : m.Walkable where
  findable e member := .inl ⟨e.1, (b.made e member).entry_id⟩
  followed r _ id key _ c here name listed := by
    rw [(b.made_of_get here).dependencies] at listed
    obtain ⟨text, -, rfl⟩ := List.mem_map.mp listed
    trivial

end Manifest

end ContractGraph
