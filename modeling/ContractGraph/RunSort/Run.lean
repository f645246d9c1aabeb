import ContractGraph.RunSort.Search

/-!
# Runs

A run is a stretch of items in order. Items are cut into runs from the front: the items that
already ascend, or that strictly descend and are then turned round, and if these are few, further
items that are put in by halving until the run has the least length that the number of all items
asks for.

A comparison may be undefined, and so is every result that needs it.
-/

namespace ContractGraph.RunSort

set_option autoImplicit false

variable {α : Type}

/-- The longest stretch of items of which each goes on from the item before, and the others. -/
def goOn (next : α → α → Option Bool) (last : α) : List α → Option (List α × List α)
  | [] => some ([], [])
  | x :: rest => do
    if ← next last x then
      let (run, others) ← goOn next x rest
      return (x :: run, others)
    else return ([], x :: rest)

/-- The run at the front, in ascending order, and the other items. -/
def firstRun (before : α → α → Option Bool) : List α → Option (List α × List α)
  | a :: b :: rest => do
    if ← before b a then
      let (run, others) ← goOn (fun last x => before x last) b rest
      return ((a :: b :: run).reverse, others)
    else
      let (run, others) ← goOn (fun last x => (before x last).map not) b rest
      return (a :: b :: run, others)
  | items => some (items, [])

/-- Puts an item into a run, after those that it does not come before. -/
def insert (before : α → α → Option Bool) (run : List α) (item : α) : Option (List α) := do
  let place ← bisect .front (fun x => (before item x).map not) run 0 run.length
  return run.take place ++ item :: run.drop place

/-- A run of some least length, as far as there are items, and the other items. -/
def nextRun (before : α → α → Option Bool) (least : Nat) (items : List α) :
    Option (List α × List α) := do
  let (run, others) ← firstRun before items
  let wanted := least - run.length
  return (← (others.take wanted).foldlM (insert before) run, others.drop wanted)

/-- The least length of a run among so many items: their number, halved until it is less than
sixty-four, and then rounded up. -/
def leastRun (count : Nat) : Nat :=
  let parts := Nat.pow 2 (count.log2 - 5)
  (count + parts - 1) / parts

example : leastRun 63 = 63 ∧ leastRun 64 = 32 ∧ leastRun 65 = 33 ∧ leastRun 2000 = 63 := by
  decide +kernel

theorem go_on_append {next : α → α → Option Bool} {last : α} {items run others : List α}
    (h : goOn next last items = some (run, others)) : run ++ others = items := by
  induction items generalizing last run others with
  | nil =>
    simp only [goOn, Option.some.injEq, Prod.mk.injEq] at h
    simp [← h.1, ← h.2]
  | cons x rest ih =>
    obtain ⟨goes, _, h⟩ := Option.bind_eq_some_iff.1 h
    cases goes with
    | false =>
      simp only [Bool.false_eq_true, if_false, Option.pure_def, Option.some.injEq,
        Prod.mk.injEq] at h
      simp [← h.1, ← h.2]
    | true =>
      obtain ⟨⟨run', others'⟩, inner, h⟩ := Option.bind_eq_some_iff.1 h
      simp only [Option.pure_def, Option.some.injEq, Prod.mk.injEq] at h
      simp [← h.1, ← h.2, ih inner]

theorem first_run_perm {before : α → α → Option Bool} {items run others : List α}
    (h : firstRun before items = some (run, others)) : (run ++ others).Perm items := by
  unfold firstRun at h
  split at h
  · next a b rest =>
    obtain ⟨descends, _, h⟩ := Option.bind_eq_some_iff.1 h
    cases descends with
    | false =>
      obtain ⟨⟨run', others'⟩, inner, h⟩ := Option.bind_eq_some_iff.1 h
      simp only [Option.pure_def, Option.some.injEq, Prod.mk.injEq] at h
      simp [← h.1, ← h.2, go_on_append inner]
    | true =>
      obtain ⟨⟨run', others'⟩, inner, h⟩ := Option.bind_eq_some_iff.1 h
      simp only [Option.pure_def, Option.some.injEq, Prod.mk.injEq] at h
      rw [← h.1, ← h.2]
      refine ((List.reverse_perm _).append_right _).trans ?_
      simp [go_on_append inner]
  · simp only [Option.some.injEq, Prod.mk.injEq] at h
    simp [← h.1, ← h.2]

theorem first_run_ne_nil {before : α → α → Option Bool} {x : α} {rest run others : List α}
    (h : firstRun before (x :: rest) = some (run, others)) : run ≠ [] := by
  cases rest with
  | nil =>
    simp only [firstRun, Option.some.injEq, Prod.mk.injEq] at h
    simp [← h.1]
  | cons b rest =>
    obtain ⟨descends, _, h⟩ := Option.bind_eq_some_iff.1 h
    cases descends <;>
    · obtain ⟨⟨run', others'⟩, _, h⟩ := Option.bind_eq_some_iff.1 h
      simp only [Option.pure_def, Option.some.injEq, Prod.mk.injEq] at h
      simp [← h.1]

theorem insert_perm {before : α → α → Option Bool} {run result : List α} {item : α}
    (h : insert before run item = some result) : result.Perm (item :: run) := by
  obtain ⟨place, _, h⟩ := Option.bind_eq_some_iff.1 h
  simp only [Option.pure_def, Option.some.injEq] at h
  rw [← h]
  refine List.perm_middle.trans ?_
  rw [List.take_append_drop]

theorem fold_insert_perm {before : α → α → Option Bool} {items run result : List α}
    (h : items.foldlM (insert before) run = some result) : result.Perm (run ++ items) := by
  induction items generalizing run with
  | nil =>
    simp only [List.foldlM_nil, Option.pure_def, Option.some.injEq] at h
    simp [h]
  | cons x rest ih =>
    rw [List.foldlM_cons] at h
    obtain ⟨grown, inner, h⟩ := Option.bind_eq_some_iff.1 h
    refine (ih h).trans ?_
    exact ((insert_perm inner).append_right rest).trans List.perm_middle.symm

theorem next_run_perm {before : α → α → Option Bool} {least : Nat} {items run others : List α}
    (h : nextRun before least items = some (run, others)) : (run ++ others).Perm items := by
  obtain ⟨⟨first, left⟩, found, h⟩ := Option.bind_eq_some_iff.1 h
  obtain ⟨filled, inner, h⟩ := Option.bind_eq_some_iff.1 h
  simp only [Option.pure_def, Option.some.injEq, Prod.mk.injEq] at h
  rw [← h.1, ← h.2]
  refine ((fold_insert_perm inner).append_right _).trans ?_
  rw [List.append_assoc, List.take_append_drop]
  exact first_run_perm found

theorem next_run_shorter {before : α → α → Option Bool} {least : Nat} {x : α}
    {rest run others : List α} (h : nextRun before least (x :: rest) = some (run, others)) :
    others.length < (x :: rest).length := by
  have whole := (next_run_perm h).length_eq
  obtain ⟨⟨first, left⟩, found, h⟩ := Option.bind_eq_some_iff.1 h
  obtain ⟨filled, inner, h⟩ := Option.bind_eq_some_iff.1 h
  simp only [Option.pure_def, Option.some.injEq, Prod.mk.injEq] at h
  have some := List.length_pos_iff.2 (first_run_ne_nil found)
  have grown := (fold_insert_perm inner).length_eq
  rw [h.1] at grown
  simp only [List.length_append] at whole grown
  omega

/-- The items cut into runs. -/
def runs (before : α → α → Option Bool) (least : Nat) : List α → Option (List (List α))
  | [] => some []
  | x :: rest =>
    match _h : nextRun before least (x :: rest) with
    | none => none
    | some (run, others) => (runs before least others).map (run :: ·)
  termination_by items => items.length
  decreasing_by exact next_run_shorter _h

theorem runs_perm {before : α → α → Option Bool} {least : Nat} {items : List α}
    {found : List (List α)} (h : runs before least items = some found) :
    found.flatten.Perm items := by
  fun_induction runs before least items generalizing found with
  | case1 =>
    simp only [Option.some.injEq] at h
    simp [← h]
  | case2 => simp at h
  | case3 x rest run others first ih =>
    obtain ⟨more, inner, rfl⟩ := Option.map_eq_some_iff.1 h
    rw [List.flatten_cons]
    exact ((ih inner).append_left run).trans (next_run_perm first)

end ContractGraph.RunSort
