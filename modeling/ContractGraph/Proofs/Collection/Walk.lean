import ContractGraph.Collection.Basic
import ContractGraph.Proofs.Graph.Spread

/-!
# A walk as a breadth-first order

On components whose dependencies are names and whose keys can be looked up, the walk from a key
enters the breadth-first order of the graph one key after the other, as far as there is room.
Entering a key visits it and, above the depth limit, reports its names that mean nothing.
-/

namespace ContractGraph.Collection

set_option autoImplicit false

/-- A walk in which a missing dependency was reported, unless its name was before. -/
def Walk.reported (w : Walk) (m : MissingDependency) : Walk :=
  if (w.missing.map (·.name)).any fun name => name.same m.name then w
  else { w with missing := w.missing ++ [m] }

def Walk.seen (w : Walk) : List String := w.visited.map (·.1)

theorem Walk.has_visited_iff (w : Walk) (key : String) :
    w.hasVisited key = true ↔ key ∈ w.seen := by
  simp [hasVisited, seen]

theorem Walk.report_text (w : Walk) {m : MissingDependency} {name : String}
    (text : m.name = .str name) : w.report m = .ok (w.reported m) := by
  have among : m.name.amongKeys (w.missing.map (·.name)) =
      .ok ((w.missing.map (·.name)).any fun other => other.same m.name) := by
    rw [text]
    rfl
  rw [report, among, reported]
  cases (w.missing.map (·.name)).any fun other => other.same m.name <;> rfl

theorem Walk.visited_reported (w : Walk) (m : MissingDependency) :
    (w.reported m).visited = w.visited := by
  rw [reported]
  split <;> rfl

theorem Walk.seen_reported (w : Walk) (m : MissingDependency) : (w.reported m).seen = w.seen := by
  rw [seen, visited_reported]
  rfl

/-- What is reported about a name that means nothing where a component has it. -/
def noContract (referrer name : String) : MissingDependency where
  name := .str name
  reason := .noContract
  referrer := some referrer
  packageName := PackageName.ofSpecifier? name

namespace Scope

def namesOf (s : Scope) (key : String) : List String :=
  (s.dependenciesOf key).filterMap Json.string?

/-- What the names of a component mean, in the order of the names. -/
def targetsOf (s : Scope) (key : String) : List String :=
  (s.namesOf key).filterMap fun name => s.resolver.resolve name (some key)

/-- The keys under which the targets are found. -/
def successorsOf (s : Scope) (key : String) : List String :=
  (s.targetsOf key).filterMap s.resolver.lookup

def unresolvedOf (s : Scope) (key : String) : List String :=
  (s.namesOf key).filter fun name => (s.resolver.resolve name (some key)).isNone

def reportUnresolved (s : Scope) (w : Walk) (key : String) : Walk :=
  (s.unresolvedOf key).foldl (fun w name => w.reported (noContract key name)) w

/-- Visits a key at its level and, above the depth limit, reports its unresolved names. -/
def enter (s : Scope) (limit : Nat) (w : Walk) (v : String × Nat) : Walk :=
  let w := w.visit v.1 v.2
  if v.2 < limit then s.reportUnresolved w v.1 else w

/-- What a walk relies on: dependencies are names, what they mean can be looked up, and what was
found is found again under itself. -/
structure Sound (s : Scope) : Prop where
  names : ∀ key, s.dependenciesOf key = (s.namesOf key).map .str
  target_found : ∀ key name target, s.resolver.resolve name (some key) = some target →
    ∃ found, s.resolver.lookup target = some found
  found_again : ∀ id key, s.resolver.lookup id = some key → s.resolver.lookup key = some key

variable {s : Scope} {w : Walk}

theorem visited_report_unresolved (s : Scope) (w : Walk) (key : String) :
    (s.reportUnresolved w key).visited = w.visited := by
  rw [reportUnresolved]
  induction s.unresolvedOf key generalizing w with
  | nil => rfl
  | cons name rest ih => rw [List.foldl_cons, ih, Walk.visited_reported]

theorem visited_enter (s : Scope) (limit : Nat) (w : Walk) (v : String × Nat) :
    (s.enter limit w v).visited = w.visited ++ [v] := by
  rw [enter]
  split
  · rw [visited_report_unresolved]
    rfl
  · rfl

theorem visited_enter_all (s : Scope) (limit : Nat) (w : Walk)
    (order : List (String × Nat)) :
    (order.foldl (s.enter limit) w).visited = w.visited ++ order := by
  induction order generalizing w with
  | nil => simp
  | cons v rest ih =>
    rw [List.foldl_cons, ih, visited_enter, List.append_assoc, List.singleton_append]

theorem seen_enter (s : Scope) (limit : Nat) (w : Walk) (v : String × Nat) :
    (s.enter limit w v).seen = w.seen ++ [v.1] := by
  rw [Walk.seen, visited_enter, List.map_append]
  rfl

theorem length_enter (s : Scope) (limit : Nat) (w : Walk) (v : String × Nat) :
    (s.enter limit w v).visited.length = w.visited.length + 1 := by
  rw [visited_enter, List.length_append]
  rfl

/-- The keys of a queue that were not visited, each once. -/
def newKeys (s : Scope) (w : Walk) (queue : List String) : List String :=
  Graph.newTo w.seen (queue.filterMap s.resolver.lookup)

def enterLevel (s : Scope) (limit level : Nat) (w : Walk) (keys : List String) : Walk :=
  (keys.map fun key => (key, level)).foldl (s.enter limit) w

theorem seen_enter_level (s : Scope) (limit level : Nat) (w : Walk) (keys : List String) :
    (s.enterLevel limit level w keys).seen = w.seen ++ keys := by
  rw [enterLevel, Walk.seen, visited_enter_all, List.map_append, List.map_map]
  exact congrArg (w.seen ++ ·) (List.map_id keys)

theorem length_enter_level (s : Scope) (limit level : Nat) (w : Walk) (keys : List String) :
    (s.enterLevel limit level w keys).visited.length = w.visited.length + keys.length := by
  rw [enterLevel, visited_enter_all, List.length_append, List.length_map]

theorem new_keys_known {id key : String} (found : s.resolver.lookup id = some key)
    (known : key ∈ w.seen) (queue : List String) :
    s.newKeys w (id :: queue) = s.newKeys w queue := by
  rw [newKeys, List.filterMap_cons_some found, Graph.newTo, if_pos known]
  rfl

theorem new_keys_fresh {id key : String} (found : s.resolver.lookup id = some key)
    (fresh : key ∉ w.seen) (limit level : Nat) (queue : List String) :
    s.newKeys w (id :: queue) = key :: s.newKeys (s.enter limit w (key, level)) queue := by
  rw [newKeys, List.filterMap_cons_some found, Graph.newTo, if_neg fresh, newKeys, seen_enter]

theorem follow_resolved {r : Resolver} {key name : String} {target : Match} (w : Walk)
    (next : List String) (means : r.find? name (some key) = some target) :
    followDependency r key (w, next) (.str name) =
      .ok (w, next ++ [target.key].filter (· ∉ w.seen)) := by
  have value : r.findValue (.str name) key = .ok (some target) := congrArg Except.ok means
  by_cases known : target.key ∈ w.seen
  · have visited : w.hasVisited target.key = true := (w.has_visited_iff _).mpr known
    simp only [followDependency, value, visited, bind, Except.bind]
    simp [known, pure, Except.pure]
  · have unvisited : w.hasVisited target.key = false :=
      Bool.eq_false_iff.mpr fun visited => known ((w.has_visited_iff _).mp visited)
    simp only [followDependency, value, unvisited, bind, Except.bind]
    simp [known, pure, Except.pure]

theorem follow_unresolved {r : Resolver} {key name : String} (w : Walk) (next : List String)
    (means : r.find? name (some key) = none) :
    followDependency r key (w, next) (.str name) =
      .ok (w.reported (noContract key name), next) := by
  have value : r.findValue (.str name) key = .ok none := congrArg Except.ok means
  have report : w.report {
      name := .str name, reason := .noContract, referrer := some key
      packageName := packageOf (.str name) } = .ok (w.reported (noContract key name)) :=
    w.report_text rfl
  simp only [followDependency, value, report, bind, Except.bind]
  rfl

/-- Following the names of a component queues the targets that were not visited and reports the
names without one. -/
theorem follow_names (r : Resolver) (key : String) (names : List String) (w : Walk)
    (next : List String) :
    (names.map Json.str).foldlM (followDependency r key) (w, next) =
      .ok (((names.filter fun name => (r.resolve name (some key)).isNone).foldl
          (fun w name => w.reported (noContract key name)) w),
        next ++ (names.filterMap fun name => r.resolve name (some key)).filter (· ∉ w.seen)) := by
  induction names generalizing w next with
  | nil =>
    simp only [List.map_nil, List.filterMap_nil, List.filter_nil, List.append_nil]
    rfl
  | cons name rest ih =>
    rw [List.map_cons, List.foldlM_cons]
    rcases means : r.find? name (some key) with _ | target
    · have unresolved : r.resolve name (some key) = none := by simp [Resolver.resolve, means]
      rw [follow_unresolved w next means]
      simp only [bind, Except.bind, ih, Walk.seen_reported]
      simp [unresolved]
    · have resolved : r.resolve name (some key) = some target.key := by
        simp [Resolver.resolve, means]
      rw [follow_resolved w next means]
      simp only [bind, Except.bind, ih]
      simp only [List.filterMap_cons, List.filter_cons, resolved, Option.isNone_some]
      split <;> simp

theorem Sound.follow_dependencies (sound : s.Sound) (key : String) (w : Walk)
    (next : List String) :
    (s.dependenciesOf key).foldlM (followDependency s.resolver key) (w, next) =
      .ok (s.reportUnresolved w key, next ++ (s.targetsOf key).filter (· ∉ w.seen)) := by
  rw [sound.names, follow_names]
  rfl

section Level

variable {level : Nat} {last : Bool} {id key : String} {queue next : List String}

theorem walk_level_known (found : s.resolver.lookup id = some key) (known : key ∈ w.seen) :
    walkLevel s level last (id :: queue) w next = walkLevel s level last queue w next := by
  have visited : w.hasVisited key = true := (w.has_visited_iff key).mpr known
  simp [walkLevel, found, visited]

theorem walk_level_full (found : s.resolver.lookup id = some key) (fresh : key ∉ w.seen)
    (full : s.room ≤ w.visited.length) :
    walkLevel s level last (id :: queue) w next =
      .ok (w, .cut (queue.length + next.length + 1)) := by
  have unvisited : w.hasVisited key = false :=
    Bool.eq_false_iff.mpr fun visited => fresh ((w.has_visited_iff key).mp visited)
  simp only [walkLevel, found, Option.getD_some, unvisited, full, if_true]
  rfl

theorem walk_level_enter {limit : Nat} (sound : s.Sound)
    (found : s.resolver.lookup id = some key) (fresh : key ∉ w.seen)
    (space : w.visited.length < s.room) (inner : decide (level < limit) = !last) :
    walkLevel s level last (id :: queue) w next =
      walkLevel s level last queue (s.enter limit w (key, level))
        (next ++ if last then [] else (s.targetsOf key).filter (· ∉ w.seen ++ [key])) := by
  have unvisited : w.hasVisited key = false :=
    Bool.eq_false_iff.mpr fun visited => fresh ((w.has_visited_iff key).mp visited)
  have unfilled : ¬s.room ≤ w.visited.length := Nat.not_le_of_lt space
  cases last with
  | true =>
    have bottom : ¬level < limit := by simpa using inner
    have entered : s.enter limit w (key, level) = w.visit key level := if_neg bottom
    simp [walkLevel, found, unvisited, unfilled, entered]
  | false =>
    have above : level < limit := by simpa using inner
    have entered : s.enter limit w (key, level) =
        s.reportUnresolved (w.visit key level) key := if_pos above
    have seen : (w.visit key level).seen = w.seen ++ [key] := by
      simp [Walk.seen, Walk.visit]
    simp only [walkLevel, found, unvisited, unfilled, entered, Option.getD_some,
      sound.follow_dependencies, seen, bind, Except.bind]
    rfl

end Level

def Findable (s : Scope) (ids : List String) : Prop :=
  ∀ id ∈ ids, ∃ key, s.resolver.lookup id = some key

/-- What holds whenever an id is taken from the queue: queued ids can be looked up, and what was
visited is found under itself. -/
structure Ready (s : Scope) (w : Walk) (queue : List String) : Prop where
  queued : s.Findable queue
  visited : ∀ key ∈ w.seen, s.resolver.lookup key = some key

namespace Ready

variable {limit : Nat} {level : Nat} {id key : String} {queue : List String}

theorem head (ready : s.Ready w (id :: queue)) : ∃ key, s.resolver.lookup id = some key :=
  ready.queued id List.mem_cons_self

theorem skip (ready : s.Ready w (id :: queue)) : s.Ready w queue :=
  ⟨fun other member => ready.queued other (List.mem_cons_of_mem id member), ready.visited⟩

theorem enter (ready : s.Ready w (id :: queue)) (sound : s.Sound)
    (found : s.resolver.lookup id = some key) :
    s.Ready (s.enter limit w (key, level)) queue := by
  refine ⟨ready.skip.queued, ?_⟩
  intro other member
  rw [seen_enter] at member
  rcases List.mem_append.mp member with before | here
  · exact ready.visited other before
  · have same : other = key := List.mem_singleton.mp here
    exact same ▸ sound.found_again id key found

end Ready

/-- Targets that were not queued because they had been visited lead nowhere new. -/
theorem unvisited_targets {lookup : String → Option String} {seen final : List String}
    (visited : ∀ key ∈ seen, lookup key = some key) (within : ∀ key ∈ seen, key ∈ final)
    (targets : List String) :
    ((targets.filter (· ∉ seen)).filterMap lookup).filter (· ∉ final) =
      (targets.filterMap lookup).filter (· ∉ final) := by
  induction targets with
  | nil => rfl
  | cons target rest ih =>
    by_cases known : target ∈ seen
    · have found := visited target known
      have inside := within target known
      simp only [List.filter_cons, List.filterMap_cons, known, found, inside, not_true_eq_false,
        decide_false, Bool.false_eq_true, if_false, ih]
    · simp only [List.filter_cons, known, not_false_eq_true, decide_true, if_true,
        List.filterMap_cons]
      split
      · exact ih
      · simp only [List.filter_cons, ih]

theorem Sound.queue_targets (sound : s.Sound) (last : Bool) (key : String) (seen : List String)
    {next : List String} (queued : s.Findable next) :
    s.Findable (next ++ if last then [] else (s.targetsOf key).filter (· ∉ seen)) := by
  intro id member
  rcases List.mem_append.mp member with before | added
  · exact queued id before
  · split at added
    · cases added
    · obtain ⟨name, -, means⟩ := List.mem_filterMap.mp (List.mem_filter.mp added).1
      exact sound.target_found key name id means

/-- When there is room for all new keys of a level they are all entered, and the queue of the next
level leads to their successors, apart from keys that were visited. -/
theorem walk_level_fits {limit level : Nat} {last : Bool} (sound : s.Sound)
    (inner : decide (level < limit) = !last) {queue : List String} :
    ∀ (w : Walk) (next : List String), s.Ready w queue →
      s.Findable next → w.visited.length + (s.newKeys w queue).length ≤ s.room →
      ∃ after, walkLevel s level last queue w next =
          .ok (s.enterLevel limit level w (s.newKeys w queue), .complete after) ∧
        s.Findable after ∧
        (last = false → ∀ final, final = w.seen ++ s.newKeys w queue →
          (after.filterMap s.resolver.lookup).filter (· ∉ final) =
            (next.filterMap s.resolver.lookup ++
              (s.newKeys w queue).flatMap s.successorsOf).filter (· ∉ final)) := by
  induction queue with
  | nil =>
    intro w next ready queued fits
    refine ⟨next, rfl, queued, ?_⟩
    intro _ final _
    simp [newKeys, Graph.newTo]
  | cons id rest ih =>
    intro w next ready queued fits
    obtain ⟨key, found⟩ := ready.head
    by_cases known : key ∈ w.seen
    · rw [new_keys_known found known] at fits ⊢
      rw [walk_level_known found known]
      exact ih w next ready.skip queued fits
    · rw [new_keys_fresh found known limit level] at fits ⊢
      rw [List.length_cons] at fits
      have entered : (s.enter limit w (key, level)).seen = w.seen ++ [key] :=
        seen_enter s limit w (key, level)
      have longer : (s.enter limit w (key, level)).visited.length = w.visited.length + 1 :=
        length_enter s limit w (key, level)
      have readyRest : s.Ready (s.enter limit w (key, level)) rest := ready.enter sound found
      have queuedMore := sound.queue_targets last key (w.seen ++ [key]) queued
      obtain ⟨after, run, afterFound, afterKeys⟩ := ih _ _ readyRest queuedMore (by omega)
      rw [walk_level_enter sound found known (by omega) inner]
      refine ⟨after, run, afterFound, ?_⟩
      intro inside final whole
      have within : ∀ other ∈ (s.enter limit w (key, level)).seen, other ∈ final := by
        intro other member
        rw [whole, List.append_cons, ← entered]
        exact List.mem_append_left _ member
      -- Targets that were visited by now were not queued, and `final` holds them.
      have targets := unvisited_targets readyRest.visited within (s.targetsOf key)
      rw [entered] at targets
      rw [afterKeys inside final (by rw [whole, entered, List.append_cons])]
      simp only [inside, Bool.false_eq_true, if_false, List.filterMap_append,
        List.filter_append, List.flatMap_cons, targets, successorsOf, List.append_assoc]

/-- When there is less room than new keys of a level, as many are entered as there is room for. -/
theorem walk_level_cut {limit level : Nat} {last : Bool} (sound : s.Sound)
    (inner : decide (level < limit) = !last) {queue : List String} :
    ∀ (w : Walk) (next : List String), s.Ready w queue → w.visited.length ≤ s.room →
      s.room < w.visited.length + (s.newKeys w queue).length →
      ∃ dropped, walkLevel s level last queue w next =
        .ok (s.enterLevel limit level w
          ((s.newKeys w queue).take (s.room - w.visited.length)), .cut dropped) := by
  induction queue with
  | nil =>
    intro w next ready within excess
    simp only [newKeys, List.filterMap_nil, Graph.newTo, List.length_nil] at excess
    omega
  | cons id rest ih =>
    intro w next ready within excess
    obtain ⟨key, found⟩ := ready.head
    by_cases known : key ∈ w.seen
    · rw [new_keys_known found known] at excess ⊢
      rw [walk_level_known found known]
      exact ih w next ready.skip within excess
    · by_cases full : s.room ≤ w.visited.length
      · have none : s.room - w.visited.length = 0 := by omega
        rw [walk_level_full found known full, none]
        exact ⟨_, rfl⟩
      · rw [new_keys_fresh found known limit level] at excess ⊢
        rw [List.length_cons] at excess
        have longer : (s.enter limit w (key, level)).visited.length = w.visited.length + 1 :=
          length_enter s limit w (key, level)
        have more : s.room - w.visited.length =
            (s.room - (s.enter limit w (key, level)).visited.length) + 1 := by omega
        have readyRest : s.Ready (s.enter limit w (key, level)) rest := ready.enter sound found
        rw [walk_level_enter sound found known (Nat.lt_of_not_le full) inner, more,
          List.take_succ_cons]
        exact ih (s.enter limit w (key, level)) _ readyRest (by omega) (by omega)

theorem Ready.enter_level {queue after : List String} (ready : s.Ready w queue)
    (sound : s.Sound) (limit level : Nat) (queued : s.Findable after) :
    s.Ready (s.enterLevel limit level w (s.newKeys w queue)) after := by
  refine ⟨queued, ?_⟩
  intro key member
  rw [seen_enter_level] at member
  rcases List.mem_append.mp member with before | here
  · exact ready.visited key before
  · obtain ⟨id, -, found⟩ := List.mem_filterMap.mp (Graph.mem_new_to_iff.mp here).1
    exact sound.found_again id key found

theorem walk_levels_nil (s : Scope) (reached : Bool) (below level : Nat) (w : Walk) :
    walkLevels s reached below level [] w = .ok (w, none) := by
  cases below <;> rfl

theorem walk_levels_complete {reached : Bool} {level : Nat} {queue after : List String}
    {w' : Walk} (run : walkLevel s level false queue w [] = .ok (w', .complete after))
    (below : Nat) :
    walkLevels s reached (below + 1) level queue w =
      walkLevels s reached below (level + 1) after w' := by
  rw [walkLevels, run]
  cases after with
  | nil => exact (walk_levels_nil s reached below (level + 1) w').symm
  | cons id rest => rfl

/-- The order in which a walk with no bound on its room goes on from a queue. -/
def orderOf (s : Scope) (below level : Nat) (w : Walk) (queue : List String) :
    List (String × Nat) :=
  Graph.spread s.successorsOf below level w.seen (queue.filterMap s.resolver.lookup)

theorem order_zero (s : Scope) (level : Nat) (w : Walk) (queue : List String) :
    s.orderOf 0 level w queue = (s.newKeys w queue).map fun key => (key, level) := rfl

theorem order_starts (s : Scope) (below level : Nat) (w : Walk) (queue : List String) :
    ∃ deeper, s.orderOf below level w queue =
      ((s.newKeys w queue).map fun key => (key, level)) ++ deeper := by
  cases below with
  | zero => exact ⟨[], (List.append_nil _).symm⟩
  | succ below => exact ⟨_, rfl⟩

theorem order_succ {below level limit : Nat} {queue after : List String}
    (successors : (after.filterMap s.resolver.lookup).filter
        (· ∉ w.seen ++ s.newKeys w queue) =
      ((s.newKeys w queue).flatMap s.successorsOf).filter (· ∉ w.seen ++ s.newKeys w queue)) :
    s.orderOf (below + 1) level w queue =
      ((s.newKeys w queue).map fun key => (key, level)) ++
        s.orderOf below (level + 1) (s.enterLevel limit level w (s.newKeys w queue)) after := by
  rw [orderOf, orderOf, seen_enter_level, Graph.spread_congr successors]
  rfl

/-- A walk within whole limits enters the breadth-first order of its queue as far as there is room,
and it is cut when the order is longer. -/
theorem walk_levels_order (sound : s.Sound) (below : Nat) :
    ∀ (level : Nat) (queue : List String) (w : Walk), s.Ready w queue →
      w.visited.length ≤ s.room →
      ∃ dropped?, walkLevels s true below level queue w =
          .ok (((s.orderOf below level w queue).take (s.room - w.visited.length)).foldl
            (s.enter (level + below)) w, dropped?) ∧
        dropped?.isSome =
          decide (s.room < w.visited.length + (s.orderOf below level w queue).length) := by
  have nothing : s.Findable [] := by
    intro id member
    cases member
  induction below with
  | zero =>
    intro level queue w ready within
    have inner : decide (level < level + 0) = !true := by simp
    rw [order_zero, List.length_map, ← List.map_take]
    by_cases fits : w.visited.length + (s.newKeys w queue).length ≤ s.room
    · obtain ⟨after, run, -, -⟩ := walk_level_fits sound inner w [] ready nothing fits
      rw [walkLevels, run, List.take_of_length_le (by omega)]
      exact ⟨none, rfl, (decide_eq_false (Nat.not_lt_of_le fits)).symm⟩
    · obtain ⟨dropped, run⟩ := walk_level_cut sound inner w [] ready within (by omega)
      rw [walkLevels, run]
      exact ⟨some dropped, rfl, (decide_eq_true (Nat.lt_of_not_le fits)).symm⟩
  | succ below ih =>
    intro level queue w ready within
    have inner : decide (level < level + (below + 1)) = !false := by simp
    by_cases fits : w.visited.length + (s.newKeys w queue).length ≤ s.room
    · obtain ⟨after, run, queued, keys⟩ := walk_level_fits sound inner w [] ready nothing fits
      have readyAfter := ready.enter_level sound (level + (below + 1)) level queued
      have length := length_enter_level s (level + (below + 1)) level w (s.newKeys w queue)
      -- The room that this level leaves is the room of the levels below.
      obtain ⟨dropped?, rest, cut⟩ := ih (level + 1) after _ readyAfter (by omega)
      have order : s.orderOf (below + 1) level w queue =
          ((s.newKeys w queue).map fun key => (key, level)) ++ s.orderOf below (level + 1)
            (s.enterLevel (level + (below + 1)) level w (s.newKeys w queue)) after :=
        order_succ (keys rfl _ rfl)
      have whole : ((s.newKeys w queue).map fun key => (key, level)).take
          (s.room - w.visited.length) = (s.newKeys w queue).map fun key => (key, level) := by
        apply List.take_of_length_le
        rw [List.length_map]
        omega
      have deeper : level + 1 + below = level + (below + 1) := by omega
      refine ⟨dropped?, ?_, ?_⟩
      · rw [walk_levels_complete run, rest, order, List.take_append, List.foldl_append, whole,
          List.length_map, deeper, length, Nat.sub_add_eq]
        rfl
      · rw [cut, order, List.length_append, List.length_map, length, Nat.add_assoc]
    · obtain ⟨dropped, run⟩ := walk_level_cut sound inner w [] ready within (by omega)
      obtain ⟨deeper, order⟩ := order_starts s (below + 1) level w queue
      refine ⟨some dropped, ?_, ?_⟩
      · rw [walkLevels, run, order, List.take_append_of_le_length (by rw [List.length_map]; omega),
          ← List.map_take]
        rfl
      · apply Eq.symm
        apply decide_eq_true
        rw [order, List.length_append, List.length_map]
        omega

end Scope

end ContractGraph.Collection
