import ContractGraph.Proofs.Collection.Order
import Mathlib.Data.List.Infix

/-!
# Bounds only cut a walk short

A collection within smaller bounds is the beginning of the collection within larger ones: of what it
visits and of what it reports as missing. It visits as many keys as there is room for, and it is
truncated exactly when there are more keys within the depth.
-/

namespace ContractGraph

set_option autoImplicit false

namespace Collection

/-- What comes out of a pass that only adds to it is a prefix of what comes out of a longer pass. -/
theorem fold_extends {α β γ : Type} {step : β → α → β} {out : β → List γ}
    (grows : ∀ b a, out b <+: out (step b a)) {short long : List α} (cut : short <+: long) (b : β) :
    out (short.foldl step b) <+: out (long.foldl step b) := by
  have onwards : ∀ (items : List α) (b : β), out b <+: out (items.foldl step b) := by
    intro items
    induction items with
    | nil => exact fun b => List.prefix_refl (out b)
    | cons a rest ih => exact fun b => (grows b a).trans (ih (step b a))
  rcases cut with ⟨rest, rfl⟩
  rw [List.foldl_append]
  exact onwards rest (short.foldl step b)

/-- Visits in ascending order are above a limit first, and below it afterwards. -/
theorem above_limit_extends {limit deeper : Nat} (bound : limit ≤ deeper)
    {order : List (String × Nat)} (ascending : order.Pairwise fun v w => v.2 ≤ w.2) :
    order.filter (·.2 < limit) <+: order.filter (·.2 < deeper) := by
  induction order with
  | nil => exact List.prefix_refl []
  | cons v rest ih =>
    obtain ⟨first, ascending⟩ := List.pairwise_cons.mp ascending
    by_cases above : v.2 < limit
    · have still : v.2 < deeper := Nat.lt_of_lt_of_le above bound
      rw [List.filter_cons_of_pos (by simpa using above),
        List.filter_cons_of_pos (by simpa using still)]
      exact (List.prefix_cons_inj v).mpr (ih ascending)
    · have none : (v :: rest).filter (·.2 < limit) = [] := by
        apply List.filter_eq_nil_iff.mpr
        intro w member within
        have higher : w.2 < limit := by simpa using within
        rcases List.mem_cons.mp member with rfl | later
        · exact above higher
        · exact above (Nat.lt_of_le_of_lt (first w later) higher)
      rw [none]
      exact List.nil_prefix

theorem Walk.missing_reported_congr {w w' : Walk} (same : w.missing = w'.missing)
    (m : MissingDependency) : (w.reported m).missing = (w'.reported m).missing := by
  rw [reported, reported, same]
  split
  · exact same
  · rfl

theorem Walk.missing_reported_extends (w : Walk) (m : MissingDependency) :
    w.missing <+: (w.reported m).missing := by
  rw [reported]
  split
  · exact List.prefix_refl _
  · exact List.prefix_append _ _

namespace Scope

variable {s : Scope}

theorem missing_report_unresolved_congr {w w' : Walk} (same : w.missing = w'.missing)
    (key : String) : (s.reportUnresolved w key).missing = (s.reportUnresolved w' key).missing := by
  rw [reportUnresolved, reportUnresolved]
  induction s.unresolvedOf key generalizing w w' with
  | nil => exact same
  | cons name rest ih => exact ih (Walk.missing_reported_congr same (noContract key name))

theorem missing_report_unresolved_extends (s : Scope) (w : Walk) (key : String) :
    w.missing <+: (s.reportUnresolved w key).missing :=
  fold_extends (fun w name => w.missing_reported_extends (noContract key name)) List.nil_prefix w

/-- Reports come from the visits above the limit alone. -/
theorem missing_enter_all (limit : Nat) (order : List (String × Nat)) {w w' : Walk}
    (same : w.missing = w'.missing) :
    (order.foldl (s.enter limit) w).missing =
      ((order.filter (·.2 < limit)).foldl (fun w v => s.reportUnresolved w v.1) w').missing := by
  induction order generalizing w w' with
  | nil => exact same
  | cons v rest ih =>
    have visited : (w.visit v.1 v.2).missing = w'.missing := same
    by_cases above : v.2 < limit
    · have entered : s.enter limit w v = s.reportUnresolved (w.visit v.1 v.2) v.1 := if_pos above
      rw [List.filter_cons_of_pos (by simpa using above), List.foldl_cons, List.foldl_cons, entered]
      exact ih (missing_report_unresolved_congr visited v.1)
    · have entered : s.enter limit w v = w.visit v.1 v.2 := if_neg above
      rw [List.filter_cons_of_neg (by simpa using above), List.foldl_cons, entered]
      exact ih visited

/-- A shorter walk with a higher limit reports the beginning of what a longer one reports. -/
theorem missing_enter_extends {limit deeper : Nat} (bound : limit ≤ deeper)
    {short long : List (String × Nat)} (cut : short <+: long)
    (ascending : long.Pairwise fun v w => v.2 ≤ w.2) (w : Walk) :
    (short.foldl (s.enter limit) w).missing <+: (long.foldl (s.enter deeper) w).missing := by
  have visits : short.filter (·.2 < limit) <+: long.filter (·.2 < deeper) :=
    (cut.filter _).trans (above_limit_extends bound ascending)
  rw [missing_enter_all limit short rfl, missing_enter_all deeper long rfl]
  exact fold_extends (fun w v => s.missing_report_unresolved_extends w v.1) visits w

/-- An entry that is not found is reported, and nothing is visited. -/
theorem walk_levels_absent {id : String} (absent : s.resolver.lookup id = none)
    (space : 0 < s.room) (reached : Bool) (below level : Nat) :
    walkLevels s reached below level [id] {} =
      .ok ({ missing := [{ name := .str id, reason := .entryNotFound }] }, none) := by
  have unfilled : ¬s.room ≤ 0 := Nat.not_le_of_lt space
  have step : ∀ last, walkLevel s level last [id] {} [] =
      .ok ({ missing := [{ name := .str id, reason := .entryNotFound }] }, .complete []) := by
    intro last
    simp only [walkLevel, absent, Walk.hasVisited, List.any_nil, Bool.false_eq_true, if_false,
      List.length_nil, unfilled]
    rfl
  cases below with
  | zero =>
    rw [walkLevels, step]
    rfl
  | succ below =>
    rw [walkLevels, step]
    rfl

end Scope

end Collection

namespace Manifest

variable {contracts : List Contract} {m : Manifest}

/-- The visits of a walk with a bound on its depth alone; none when the entry is not found. -/
def orderFrom (m : Manifest) (depth : Nat) (entryId : String) : List (String × Nat) :=
  ((Resolver.ofKeys m.components.keys).lookup entryId).elim [] (m.reach depth)

/-- The walk before its first visit. It has reported the entry when that is not found. -/
def walkFrom (m : Manifest) (entryId : String) : Collection.Walk :=
  ((Resolver.ofKeys m.components.keys).lookup entryId).elim
    { missing := [{ name := .str entryId, reason := .entryNotFound }] } fun _ => {}

theorem order_from_deeper (m : Manifest) {depth deeper : Nat} (bound : depth ≤ deeper)
    (entryId : String) : m.orderFrom depth entryId <+: m.orderFrom deeper entryId := by
  rw [orderFrom, orderFrom]
  cases (Resolver.ofKeys m.components.keys).lookup entryId with
  | none => exact List.prefix_refl []
  | some start => exact Graph.spread_deeper _ bound 0 [] [start]

theorem order_from_ascends (m : Manifest) (depth : Nat) (entryId : String) :
    (m.orderFrom depth entryId).Pairwise fun v w => v.2 ≤ w.2 := by
  rw [orderFrom]
  cases (Resolver.ofKeys m.components.keys).lookup entryId with
  | none => exact List.Pairwise.nil
  | some start => exact Graph.spread_levels_ascend _ depth 0 [] [start]

namespace Built

theorem order_from_length (b : Built contracts m) (depth : Nat) (entryId : String) :
    (m.orderFrom depth entryId).length ≤ m.components.size := by
  rw [orderFrom]
  rcases here : (Resolver.ofKeys m.components.keys).lookup entryId with _ | start
  · exact Nat.zero_le _
  · exact b.reach_length depth (Resolver.lookup_found here)

theorem collect_absent (b : Built contracts m) {entryId : String}
    (absent : (Resolver.ofKeys m.components.keys).lookup entryId = none) (depth nodes : Nat)
    (room : 1 ≤ nodes) :
    (m.collect entryId (.counts depth nodes room)).outcome = .ok {
      entryId := .str entryId
      missing := [{ name := .str entryId, reason := .entryNotFound }] } := by
  have space : 0 < (Limits.counts depth nodes room).room m.components.size := by
    rw [Limits.room_of_whole rfl]
    exact room
  have run : Collection.walk m entryId (.counts depth nodes room) =
      .ok ({ missing := [{ name := .str entryId, reason := .entryNotFound }] }, none) := by
    rw [Collection.walk, b.resolver_eq]
    exact Collection.Scope.walk_levels_absent absent space _ _ 0
  rw [collect, run]
  rfl

/-- A collection within counts is the beginning of the order of its entry, as far as there is room,
and it is truncated when the order is longer. -/
theorem collect_from (b : Built contracts m) (named : ∀ c ∈ contracts, c.entryId ≠ "")
    (entryId : String) (depth nodes : Nat) (room : 1 ≤ nodes) :
    (m.collect entryId (.counts depth nodes room)).outcome = .ok {
      entryId := .str entryId
      visited := (m.orderFrom depth entryId).take nodes
      missing := (((m.orderFrom depth entryId).take nodes).foldl ((m.scope 0).enter depth)
        (m.walkFrom entryId)).missing
      truncated := decide (nodes < (m.orderFrom depth entryId).length) } := by
  rcases here : (Resolver.ofKeys m.components.keys).lookup entryId with _ | start
  · have absent := b.collect_absent here depth nodes room
    simp only [orderFrom, walkFrom, here, Option.elim_none, List.take_nil, List.foldl_nil,
      List.length_nil, Nat.not_lt_zero, decide_false]
    exact absent
  · have order := b.collect_order named here depth nodes room
    simp only [orderFrom, walkFrom, here]
    exact order

end Built

/-- Smaller bounds give the beginning of what larger ones give: of the visits with their levels and
of the reports. As many keys are visited as there is room for, and some are left out exactly when a
collection of the same depth with room for all components visits more than there is room for. -/
theorem bounds_cut_short {now : String} {hasher : Hasher} {withIndex : Bool}
    (built : (build now hasher withIndex contracts).outcome = .ok m)
    (named : ∀ c ∈ contracts, c.entryId ≠ "") (entryId : String) {depth deeper nodes more : Nat}
    (lower : depth ≤ deeper) (room : 1 ≤ nodes) (wider : nodes ≤ more) :
    ∃ c c', (m.collect entryId (.counts depth nodes room)).outcome = .ok c ∧
      (m.collect entryId (.counts deeper more (room.trans wider))).outcome = .ok c' ∧
      c.visited <+: c'.visited ∧ c.missing <+: c'.missing ∧
      ∀ (all : Nat) (space : 1 ≤ all), m.components.size ≤ all →
        ∃ whole, (m.collect entryId (.counts depth all space)).outcome = .ok whole ∧
          whole.truncated = false ∧ c.visited.length = min nodes whole.visited.length ∧
          (c.truncated = true ↔ nodes < whole.visited.length) := by
  have b := build_built built
  have visits : (m.orderFrom depth entryId).take nodes <+: (m.orderFrom deeper entryId).take more :=
    (List.IsPrefix.take (m.order_from_deeper lower entryId) nodes).trans
      (List.take_prefix_take_left wider)
  have ascending : ((m.orderFrom deeper entryId).take more).Pairwise fun v w => v.2 ≤ w.2 :=
    (m.order_from_ascends deeper entryId).sublist (List.take_sublist _ _)
  refine ⟨_, _, b.collect_from named entryId depth nodes room,
    b.collect_from named entryId deeper more _, visits,
    Collection.Scope.missing_enter_extends lower visits ascending _, ?_⟩
  intro all space enough
  have fits : (m.orderFrom depth entryId).length ≤ all :=
    (b.order_from_length depth entryId).trans enough
  refine ⟨_, b.collect_from named entryId depth all space, ?_, ?_, ?_⟩
  · exact decide_eq_false (Nat.not_lt_of_le fits)
  · simp only [List.take_of_length_le fits, List.length_take]
  · simp only [List.take_of_length_le fits, decide_eq_true_eq]

/-- A chain of three components and two packages, of which the second is used twice. -/
def chain : List Contract :=
  let contract (id : String) (names : List String) : Contract :=
    { entryId := id, composition := { components := names }, source := .null }
  [contract "src/App.tsx" ["Page", "react"],
   contract "src/Page.tsx" ["Row", "react-dom", "App"],
   contract "src/Row.tsx" ["react-dom"]]

theorem bounds_cut_short_of_chain :
    (∀ c ∈ chain, c.entryId ≠ "") ∧ 1 ≤ 2 ∧ 2 ≤ 3 ∧
      ∃ m c c', (build "" (.constant (.str "s") (.str "g")) false chain).outcome = .ok m ∧
        (m.collect "src/App.tsx" (.counts 1 2 (by decide))).outcome = .ok c ∧
        (m.collect "src/App.tsx" (.counts 2 3 (by decide))).outcome = .ok c' ∧
        c.visited <+: c'.visited ∧ c.missing <+: c'.missing ∧
        ∀ (all : Nat) (space : 1 ≤ all), m.components.size ≤ all →
          ∃ whole, (m.collect "src/App.tsx" (.counts 1 all space)).outcome = .ok whole ∧
            whole.truncated = false ∧ c.visited.length = min 2 whole.visited.length ∧
            (c.truncated = true ↔ 2 < whole.visited.length) := by
  have named : ∀ c ∈ chain, c.entryId ≠ "" := by decide
  obtain ⟨m, built⟩ : ∃ m,
      (build "" (.constant (.str "s") (.str "g")) false chain).outcome = .ok m := ⟨_, rfl⟩
  obtain ⟨c, c', rest⟩ := bounds_cut_short built named "src/App.tsx"
    (show 1 ≤ 2 by decide) (show 1 ≤ 2 by decide) (show 2 ≤ 3 by decide)
  exact ⟨named, by decide, by decide, m, c, c', built, rest⟩

end Manifest

end ContractGraph
