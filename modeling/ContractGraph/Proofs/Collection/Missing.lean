import ContractGraph.Proofs.Collection.Account
import ContractGraph.Proofs.Collection.Bounds

/-!
# What a collection misses

A collection that finds its entry misses the names that mean nothing where a visited component above
the depth limit has them, each reported for its first use only: the components count in the order of
their visit and the names of each in their own order. One name may mean something beside one
component and nothing beside another, so it is a use that is reported and not a name. Only a
collection that does not find its entry reports the entry, and then it reports and visits nothing
else.
-/

namespace ContractGraph

set_option autoImplicit false

namespace Collection

/-- Reporting one use after the other keeps the first use of each name. -/
theorem missing_reported_all (uses : List (String × String)) :
    (uses.foldl (fun w use => w.reported (noContract use.1 use.2)) ({} : Walk)).missing =
      (firstOfEach (·.2) uses).map fun use => noContract use.1 use.2 := by
  induction uses using List.reverseRecOn with
  | nil => rfl
  | append_singleton uses use ih =>
    rw [List.foldl_append, List.foldl_cons, List.foldl_nil, first_of_each_append_one]
    generalize uses.foldl (fun w use => w.reported (noContract use.1 use.2)) ({} : Walk) = w at ih ⊢
    have names : w.missing.map (·.name) = ((uses.map (·.2)).eraseDups).map .str := by
      rw [ih, ← map_first_of_each, List.map_map, List.map_map]
      rfl
    have reported_before : ((w.missing.map (·.name)).any fun name =>
        name.same (noContract use.1 use.2).name) = true ↔ use.2 ∈ uses.map (·.2) := by
      rw [names, List.any_map, ← List.mem_eraseDups]
      simp [List.any_eq_true, noContract]
    rw [Walk.reported]
    by_cases known : use.2 ∈ uses.map (·.2)
    · rw [if_pos known, if_pos (reported_before.mpr known)]
      exact ih
    · rw [if_neg known, if_neg (mt reported_before.mp known), List.map_append, ← ih]
      rfl

end Collection

namespace Manifest

variable {contracts : List Contract} {m : Manifest}

/-- The names of a component; none where there is no component. -/
def namesOf (m : Manifest) (key : String) : List String :=
  ((m.components.get? key).map (·.dependencyNames)).getD []

/-- The names that mean nothing where a component has them, each with that component: one component
after the other, and the names of each in their order. -/
def unresolvedUses (m : Manifest) (r : Resolver) (ids : List String) : List (String × String) :=
  ids.flatMap fun id =>
    ((m.namesOf id).filter fun name => (r.resolve name (some id)).isNone).map fun name => (id, name)

theorem names_of_scope (m : Manifest) (room : Nat) (key : String) :
    (m.scope room).namesOf key = m.namesOf key := by
  rw [Collection.Scope.namesOf, Collection.Scope.dependenciesOf, scope, namesOf]
  cases m.components.get? key with
  | none => rfl
  | some c => rfl

/-- What the visits above the limit report is reported use by use. -/
theorem report_visits (m : Manifest) (room : Nat) (visits : List (String × Nat))
    (w : Collection.Walk) :
    visits.foldl (fun w v => (m.scope room).reportUnresolved w v.1) w =
      (m.unresolvedUses (.ofKeys m.components.keys) (visits.map (·.1))).foldl
        (fun w use => w.reported (Collection.noContract use.1 use.2)) w := by
  rw [unresolvedUses, List.flatMap_map, List.foldl_flatMap]
  congr 1
  funext w v
  rw [Collection.Scope.reportUnresolved, Collection.Scope.unresolvedOf, names_of_scope,
    List.foldl_map]
  rfl

/-- What a collection that starts from a key reports as missing. -/
structure ReportsUses (m : Manifest) (r : Resolver) (depth : Nat) (start : String)
    (c : Collection) : Prop where
  starts : c.visited.head? = some (start, 0)
  no_entry : ∀ d ∈ c.missing, d.reason ≠ .entryNotFound
  first_uses : c.missing = (firstOfEach (·.2) (m.unresolvedUses r
    ((c.visited.filter (·.2 < depth)).map (·.1)))).map fun use => Collection.noContract use.1 use.2
  once : (c.missing.map (·.name)).Nodup
  unvisited : ∀ id ∈ c.visitedIds, .str id ∉ c.missing.map (·.name)

theorem Built.collect_reports (b : Built contracts m) (named : ∀ c ∈ contracts, c.entryId ≠ "")
    {entryId start : String}
    (found : (Resolver.ofKeys m.components.keys).lookup entryId = some start) (depth nodes : Nat)
    (room : 1 ≤ nodes) {c : Collection}
    (collected : (m.collect entryId (.counts depth nodes room)).outcome = .ok c) :
    m.ReportsUses (.ofKeys m.components.keys) depth start c := by
  obtain ⟨-, visits, -, names, texts, distinct, nowhere⟩ := b.collect_accounts collected
  have order := b.collect_order named found depth nodes room
  rw [collected] at order
  have visited : c.visited = (m.reach depth start).take nodes :=
    congrArg Collection.visited (Except.ok.inj order)
  have missing : c.missing = (((m.reach depth start).take nodes).foldl
      ((m.scope nodes).enter depth) {}).missing := congrArg Collection.missing (Except.ok.inj order)
  have uses : c.missing = (firstOfEach (·.2) (m.unresolvedUses (.ofKeys m.components.keys)
      ((c.visited.filter (·.2 < depth)).map (·.1)))).map
        fun use => Collection.noContract use.1 use.2 := by
    rw [missing, Collection.Scope.missing_enter_all depth _ rfl, report_visits, visited]
    exact Collection.missing_reported_all _
  constructor
  case starts =>
    obtain ⟨rest, first⟩ := m.reach_starts depth start
    have one : nodes = nodes - 1 + 1 := by omega
    rw [visited, first, one, List.take_succ_cons]
    rfl
  case no_entry =>
    intro d member
    rw [uses] at member
    obtain ⟨use, -, rfl⟩ := List.mem_map.mp member
    exact MissingReason.noConfusion
  case first_uses => exact uses
  case once =>
    rw [texts]
    exact List.Pairwise.map Json.str (fun _ _ apart same => apart (Json.str.inj same)) distinct
  case unvisited =>
    intro id visit reported
    rw [texts] at reported
    obtain ⟨name, listed, same⟩ := List.mem_map.mp reported
    have absent := nowhere name listed
    rw [Json.str.inj same, visits id visit] at absent
    cases absent

/-- A collection whose entry is not found visits nothing and reports the entry. Any other reports the
first use of each name that means nothing where it is used above the depth limit, and nothing else;
no name is reported twice and none was visited. -/
theorem missing_are_first_uses {now : String} {hasher : Hasher} {withIndex : Bool}
    (built : (build now hasher withIndex contracts).outcome = .ok m)
    (named : ∀ c ∈ contracts, c.entryId ≠ "") (entryId : String) (depth nodes : Nat)
    (room : 1 ≤ nodes) :
    ∃ r c, m.resolver = .ok r ∧
      (m.collect entryId (.counts depth nodes room)).outcome = .ok c ∧
      (r.lookup entryId = none → c.visited = [] ∧ c.truncated = false ∧
        c.missing = [{ name := .str entryId, reason := .entryNotFound }]) ∧
      ∀ start, r.lookup entryId = some start → m.ReportsUses r depth start c := by
  have b := build_built built
  refine ⟨_, _, b.resolver_eq, b.collect_from named entryId depth nodes room, ?_, ?_⟩
  · intro absent
    have alone := b.collect_absent absent depth nodes room
    rw [b.collect_from named entryId depth nodes room] at alone
    rw [Except.ok.inj alone]
    exact ⟨rfl, rfl, rfl⟩
  · intro start found
    exact b.collect_reports named found depth nodes room
      (b.collect_from named entryId depth nodes room)

/-- The name `./Row` means a component where `b/Card.ts` has it and none where `a.ts` does, and `kit`
is used by both and means none. -/
def shelf : List Contract :=
  let contract (id : String) (names : List String) : Contract :=
    { entryId := id, composition := { components := names }, source := .null }
  [contract "a.ts" ["kit/x", "Card", "./Row", "kit/x"],
   contract "b/Card.ts" ["./Row", "kit/x", "kit"],
   contract "b/Row.ts" []]

theorem missing_are_first_uses_of_shelf :
    (∀ c ∈ shelf, c.entryId ≠ "") ∧
      ∃ m r c, (build "" (.constant (.str "s") (.str "g")) false shelf).outcome = .ok m ∧
        m.resolver = .ok r ∧
        (m.collect "a.ts" (.counts 2 9 (by decide))).outcome = .ok c ∧
        (r.lookup "a.ts" = none → c.visited = [] ∧ c.truncated = false ∧
          c.missing = [{ name := .str "a.ts", reason := .entryNotFound }]) ∧
        ∀ start, r.lookup "a.ts" = some start → m.ReportsUses r 2 start c := by
  have named : ∀ c ∈ shelf, c.entryId ≠ "" := by decide
  obtain ⟨m, built⟩ := exists_build "" (.str "s") (.str "g") shelf
  obtain ⟨r, c, rest⟩ := missing_are_first_uses built named "a.ts" 2 9 (by decide)
  exact ⟨named, m, r, c, built, rest⟩

example : ((build "" (.constant (.str "s") (.str "g")) false shelf).outcome.bind fun m =>
    (m.collect "a.ts" (.counts 2 9 (by decide))).outcome).map (fun c =>
      c.missing.map fun d => (d.name, d.referrer, d.packageName)) =
    .ok [(.str "kit/x", some "a.ts", some "kit"), (.str "./Row", some "a.ts", none),
      (.str "kit", some "b/Card.ts", some "kit")] := by decide +kernel

end Manifest

end ContractGraph
