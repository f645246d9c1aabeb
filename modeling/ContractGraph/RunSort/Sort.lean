import ContractGraph.RunSort.Merge
import ContractGraph.RunSort.Run

/-!
# Sorting by runs

A stable way to sort that asks for nothing but comparisons, each of which may be undefined. The
items are cut into runs, and neighbouring runs are merged in the order that a balanced division of
all items into halves gives: the earlier two runs lie in different halves, the later they are
merged. For an order this gives the same list as any stable way to sort. For a relation that is
none, such as the comparison of numbers among which some are not a number, the list depends on the
way, and this is the one that is meant.
-/

namespace ContractGraph.RunSort

set_option autoImplicit false

variable {α : Type}

/-- How often all items can be halved with the middles of two neighbouring runs still in one part.
The places of the middles are given in half items. -/
def boundaryDepth (total left right : Nat) : Nat :=
  let part (middle depth : Nat) : Nat := middle * Nat.pow 2 depth / total
  ((List.range total.log2).find? fun d => part left d != part right d).getD total.log2

/-- Runs that wait to be merged: the last one, the runs before it, each with the depth of its
boundary to the next one, the number of their items and the patience. -/
structure Waiting (α : Type) where
  last : List α
  earlier : List (List α × Nat)
  count : Nat
  patience : Nat

/-- The items that wait. -/
def Waiting.items (w : Waiting α) : List α := (w.last :: w.earlier.map (·.1)).flatten

/-- Merges the last run with those before it whose boundaries are deeper. -/
def settle (before : α → α → Option Bool) (depth : Nat) (patience : Nat) (last : List α) :
    List (List α × Nat) → Option (List α × List (List α × Nat) × Nat)
  | [] => some (last, [], patience)
  | (left, d) :: earlier =>
    if depth < d then do
      let (merged, patience) ← merge before patience left last
      settle before depth patience merged earlier
    else some (last, (left, d) :: earlier, patience)

/-- Adds the next run. -/
def Waiting.push (before : α → α → Option Bool) (total : Nat) (w : Waiting α) (run : List α) :
    Option (Waiting α) := do
  let depth := boundaryDepth total (2 * w.count - w.last.length) (2 * w.count + run.length)
  let (last, earlier, patience) ← settle before depth w.patience w.last w.earlier
  return ⟨run, (last, depth) :: earlier, w.count + run.length, patience⟩

/-- Merges the last run and the runs before it into one, the last two first unless the run before
them is shorter than the last one. -/
def unite (before : α → α → Option Bool) (patience : Nat) (last : List α) :
    List (List α) → Option (List α)
  | [] => some last
  | [left] => (merge before patience left last).map (·.1)
  | middle :: left :: earlier =>
    if left.length < last.length then do
      let (merged, patience) ← merge before patience left middle
      unite before patience last (merged :: earlier)
    else do
      let (merged, patience) ← merge before patience middle last
      unite before patience merged (left :: earlier)
  termination_by earlier => earlier.length

def sort? (before : α → α → Option Bool) (items : List α) : Option (List α) := do
  match ← runs before (leastRun items.length) items with
  | [] => return []
  | first :: rest =>
    let start : Waiting α := ⟨first, [], first.length, longStretch⟩
    let w ← rest.foldlM (Waiting.push before items.length) start
    unite before w.patience w.last (w.earlier.map (·.1))

theorem settle_perm {before : α → α → Option Bool} {depth patience rest : Nat} {last top : List α}
    {earlier below : List (List α × Nat)}
    (h : settle before depth patience last earlier = some (top, below, rest)) :
    ((top :: below.map (·.1)).flatten).Perm (last :: earlier.map (·.1)).flatten := by
  induction earlier generalizing patience last with
  | nil =>
    simp only [settle, Option.some.injEq, Prod.mk.injEq] at h
    simp [h.1, ← h.2.1]
  | cons e earlier ih =>
    unfold settle at h
    split at h
    · obtain ⟨⟨merged, _⟩, inner, h⟩ := Option.bind_eq_some_iff.1 h
      refine (ih h).trans ?_
      simp only [List.map_cons, List.flatten_cons, ← List.append_assoc]
      exact ((merge_perm inner).trans List.perm_append_comm).append_right _
    · simp only [Option.some.injEq, Prod.mk.injEq] at h
      simp [h.1, ← h.2.1]

theorem push_perm {before : α → α → Option Bool} {total : Nat} {w next : Waiting α} {run : List α}
    (h : w.push before total run = some next) : next.items.Perm (w.items ++ run) := by
  obtain ⟨⟨last, earlier, patience⟩, settled, h⟩ := Option.bind_eq_some_iff.1 h
  simp only [Option.pure_def, Option.some.injEq] at h
  rw [← h]
  simp only [Waiting.items, List.map_cons, List.flatten_cons]
  refine List.perm_append_comm.trans (List.Perm.append_right run ?_)
  simpa using settle_perm settled

theorem fold_push_perm {before : α → α → Option Bool} {total : Nat} {w next : Waiting α}
    {found : List (List α)} (h : found.foldlM (Waiting.push before total) w = some next) :
    next.items.Perm (w.items ++ found.flatten) := by
  induction found generalizing w with
  | nil =>
    simp only [List.foldlM_nil, Option.pure_def, Option.some.injEq] at h
    simp [h]
  | cons run rest ih =>
    rw [List.foldlM_cons] at h
    obtain ⟨grown, inner, h⟩ := Option.bind_eq_some_iff.1 h
    refine (ih h).trans ?_
    rw [List.flatten_cons, ← List.append_assoc]
    exact (push_perm inner).append_right _

theorem unite_perm {before : α → α → Option Bool} {patience : Nat} {last result : List α}
    {earlier : List (List α)} (h : unite before patience last earlier = some result) :
    result.Perm (last :: earlier).flatten := by
  fun_induction unite before patience last earlier generalizing result with
  | case1 =>
    simp only [Option.some.injEq] at h
    simp [h]
  | case2 patience last left =>
    obtain ⟨⟨merged, _⟩, inner, rfl⟩ := Option.map_eq_some_iff.1 h
    simpa using (merge_perm inner).trans List.perm_append_comm
  | case3 patience last middle left earlier _ ih =>
    obtain ⟨⟨merged, rest⟩, inner, h⟩ := Option.bind_eq_some_iff.1 h
    refine (ih merged rest h).trans ?_
    simp only [List.flatten_cons, ← List.append_assoc]
    refine List.Perm.append_right _ ?_
    rw [List.append_assoc]
    exact ((merge_perm inner).trans List.perm_append_comm).append_left last
  | case4 patience last middle left earlier _ ih =>
    obtain ⟨⟨merged, rest⟩, inner, h⟩ := Option.bind_eq_some_iff.1 h
    refine (ih merged rest h).trans ?_
    simp only [List.flatten_cons, ← List.append_assoc]
    refine List.Perm.append_right _ (List.Perm.append_right left ?_)
    exact (merge_perm inner).trans List.perm_append_comm

theorem sort_perm {before : α → α → Option Bool} {items result : List α}
    (h : sort? before items = some result) : result.Perm items := by
  obtain ⟨found, cut, h⟩ := Option.bind_eq_some_iff.1 h
  have whole := runs_perm cut
  cases found with
  | nil =>
    simp only [Option.pure_def, Option.some.injEq] at h
    simpa [← h] using whole
  | cons first rest =>
    obtain ⟨w, pushed, h⟩ := Option.bind_eq_some_iff.1 h
    refine (unite_perm h).trans ((fold_push_perm pushed).trans ?_)
    simpa [Waiting.items] using whole

example : sort? (fun a b => some (decide (a < b))) [3, 2, 1, 2, 0] = some [0, 1, 2, 2, 3] := by
  decide +kernel

end ContractGraph.RunSort
