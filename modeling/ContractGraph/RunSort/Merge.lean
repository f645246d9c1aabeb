import ContractGraph.RunSort.Search

/-!
# Merging two runs

Two neighbouring runs are merged from one side. The shorter of them is the held one. Items go out
one at a time, by a comparison each; when one run has won often enough in a row, whole stretches
go out, found by galloping, until the stretches become short. How often is enough is the patience,
which sinks while stretches are long, grows when they become short, and is handed on from one merge
to the next. The last item of the held run needs no comparison: it goes out after all others.

Items that are in their places already, the front of the left run and the back of the right one,
take no part.
-/

namespace ContractGraph.RunSort

set_option autoImplicit false

variable {α : Type}

/-- Two runs on the way to one, listed from the side where items go out. -/
structure Merging (α : Type) where
  /-- The items that went out, the last one first. -/
  out : List α
  held : List α
  other : List α

/-- How long a stretch is that is worth galloping. -/
def longStretch : Nat := 7

namespace Merging

def isOver (m : Merging α) : Bool := m.other.isEmpty || (m.held.drop 1).isEmpty

/-- The merged run, when the merging is over. -/
def result (m : Merging α) : List α := m.out.reverse ++ m.other ++ m.held

def size (m : Merging α) : Nat := m.held.length + m.other.length

def takeHeld (m : Merging α) (n : Nat) : Merging α where
  out := (m.held.take n).reverse ++ m.out
  held := m.held.drop n
  other := m.other

def takeOther (m : Merging α) (n : Nat) : Merging α where
  out := (m.other.take n).reverse ++ m.out
  held := m.held
  other := m.other.drop n

theorem take_held_perm (m : Merging α) (n : Nat) : (m.takeHeld n).result.Perm m.result := by
  simp only [result, takeHeld, List.reverse_append, List.reverse_reverse, List.append_assoc]
  refine List.Perm.append_left _ ?_
  rw [← List.append_assoc]
  refine (List.perm_append_comm.append_right _).trans ?_
  rw [List.append_assoc, List.take_append_drop]

theorem take_other_perm (m : Merging α) (n : Nat) : (m.takeOther n).result.Perm m.result := by
  simp only [result, takeOther, List.reverse_append, List.reverse_reverse, List.append_assoc]
  refine List.Perm.append_left _ ?_
  rw [← List.append_assoc, List.take_append_drop]

/-- Lets the stretch of the held run go out that the other run's next item does not come before,
and then that item. -/
def passHeld (side : Side) (otherFirst : α → α → Option Bool) (m : Merging α) :
    Option (Nat × Merging α) :=
  match m.other with
  | [] => some (0, m)
  | y :: _ => do
    let n ← gallop side (fun x => (otherFirst x y).map not) m.held
    let m := m.takeHeld n
    return (n, if m.isOver then m else m.takeOther 1)

/-- Lets the stretch of the other run go out that comes before the held run's next item, and then
that item. -/
def passOther (side : Side) (otherFirst : α → α → Option Bool) (m : Merging α) :
    Option (Nat × Merging α) :=
  match m.held with
  | [] => some (0, m)
  | x :: _ => do
    let n ← gallop side (otherFirst x) m.other
    let m := m.takeOther n
    return (n, if m.isOver then m else m.takeHeld 1)

theorem pass_held_perm {side : Side} {otherFirst : α → α → Option Bool} {m next : Merging α}
    {n : Nat} (h : m.passHeld side otherFirst = some (n, next)) : next.result.Perm m.result := by
  unfold passHeld at h
  split at h
  · simp only [Option.some.injEq, Prod.mk.injEq] at h
    rw [h.2]
  · obtain ⟨count, _, h⟩ := Option.bind_eq_some_iff.1 h
    simp only [Option.pure_def, Option.some.injEq, Prod.mk.injEq] at h
    rw [← h.2]
    split
    · exact take_held_perm m count
    · exact (take_other_perm _ 1).trans (take_held_perm m count)

theorem pass_other_perm {side : Side} {otherFirst : α → α → Option Bool} {m next : Merging α}
    {n : Nat} (h : m.passOther side otherFirst = some (n, next)) : next.result.Perm m.result := by
  unfold passOther at h
  split at h
  · simp only [Option.some.injEq, Prod.mk.injEq] at h
    rw [h.2]
  · obtain ⟨count, _, h⟩ := Option.bind_eq_some_iff.1 h
    simp only [Option.pure_def, Option.some.injEq, Prod.mk.injEq] at h
    rw [← h.2]
    split
    · exact take_other_perm m count
    · exact (take_held_perm _ 1).trans (take_other_perm m count)

/-- A stretch of each run, that of the left run first, and the length of the longer one. -/
def round (side : Side) (otherFirst : α → α → Option Bool) (m : Merging α) :
    Option (Nat × Merging α) :=
  match side with
  | .front => do
    let (a, m) ← m.passHeld .front otherFirst
    if m.isOver then return (a, m)
    else
      let (b, m) ← m.passOther .front otherFirst
      return (max a b, m)
  | .back => do
    let (a, m) ← m.passOther .back otherFirst
    if m.isOver then return (a, m)
    else
      let (b, m) ← m.passHeld .back otherFirst
      return (max a b, m)

theorem round_perm {side : Side} {otherFirst : α → α → Option Bool} {m next : Merging α}
    {n : Nat} (h : m.round side otherFirst = some (n, next)) : next.result.Perm m.result := by
  cases side with
  | front =>
    obtain ⟨⟨a, middle⟩, first, h⟩ := Option.bind_eq_some_iff.1 h
    dsimp only at h
    split at h
    · simp only [Option.pure_def, Option.some.injEq, Prod.mk.injEq] at h
      exact h.2 ▸ pass_held_perm first
    · obtain ⟨⟨b, last⟩, second, h⟩ := Option.bind_eq_some_iff.1 h
      simp only [Option.pure_def, Option.some.injEq, Prod.mk.injEq] at h
      exact h.2 ▸ (pass_other_perm second).trans (pass_held_perm first)
  | back =>
    obtain ⟨⟨a, middle⟩, first, h⟩ := Option.bind_eq_some_iff.1 h
    dsimp only at h
    split at h
    · simp only [Option.pure_def, Option.some.injEq, Prod.mk.injEq] at h
      exact h.2 ▸ pass_other_perm first
    · obtain ⟨⟨b, last⟩, second, h⟩ := Option.bind_eq_some_iff.1 h
      simp only [Option.pure_def, Option.some.injEq, Prod.mk.injEq] at h
      exact h.2 ▸ (pass_held_perm second).trans (pass_other_perm first)

/-- How the next items go out: one at a time after so many of the held and so many of the other run
in a row, or by stretches. -/
inductive Mode where
  | singly (held other : Nat)
  | byStretches

/-- The mode after one more item of a run that has won so often in a row. -/
def Mode.after (patience wins : Nat) (singly : Mode) : Mode :=
  if patience ≤ wins then .byStretches else singly

/-- The merged run and the patience that is left, after at most so many steps. -/
def run (side : Side) (otherFirst : α → α → Option Bool) :
    Nat → Mode → Nat → Merging α → Option (List α × Nat)
  | 0, _, patience, m => some (m.result, patience)
  | steps + 1, mode, patience, m =>
    if m.isOver then some (m.result, patience)
    else
      match mode with
      | .singly heldWins otherWins => do
        let x ← m.held.head?
        let y ← m.other.head?
        if ← otherFirst x y then
          let mode := Mode.after patience (otherWins + 1) (.singly 0 (otherWins + 1))
          run side otherFirst steps mode patience (m.takeOther 1)
        else
          let mode := Mode.after patience (heldWins + 1) (.singly (heldWins + 1) 0)
          run side otherFirst steps mode patience (m.takeHeld 1)
      | .byStretches => do
        let (longest, m) ← m.round side otherFirst
        if m.isOver then return (m.result, patience)
        else if longStretch ≤ longest then
          run side otherFirst steps .byStretches (max 1 (patience - 1)) m
        else run side otherFirst steps (.singly 0 0) (patience + 1) m

theorem run_perm {side : Side} {otherFirst : α → α → Option Bool} {steps : Nat} {mode : Mode}
    {patience left : Nat} {m : Merging α} {merged : List α}
    (h : run side otherFirst steps mode patience m = some (merged, left)) :
    merged.Perm m.result := by
  induction steps generalizing mode patience m with
  | zero =>
    simp only [run, Option.some.injEq, Prod.mk.injEq] at h
    rw [h.1]
  | succ steps ih =>
    unfold run at h
    split at h
    · simp only [Option.some.injEq, Prod.mk.injEq] at h
      rw [h.1]
    · split at h
      · obtain ⟨x, _, h⟩ := Option.bind_eq_some_iff.1 h
        obtain ⟨y, _, h⟩ := Option.bind_eq_some_iff.1 h
        obtain ⟨goes, _, h⟩ := Option.bind_eq_some_iff.1 h
        cases goes with
        | true => exact (ih h).trans (take_other_perm m 1)
        | false => exact (ih h).trans (take_held_perm m 1)
      · obtain ⟨⟨longest, next⟩, passed, h⟩ := Option.bind_eq_some_iff.1 h
        dsimp only at h
        split at h
        · simp only [Option.pure_def, Option.some.injEq, Prod.mk.injEq] at h
          exact h.1 ▸ round_perm passed
        · split at h
          · exact (ih h).trans (round_perm passed)
          · exact (ih h).trans (round_perm passed)

/-- Merges two runs whose first item to go out is one of the other run. -/
def start (side : Side) (otherFirst : α → α → Option Bool) (patience : Nat) (held other : List α) :
    Option (List α × Nat) :=
  let m : Merging α := ⟨[], held, other⟩
  run side otherFirst m.size (.singly 0 0) patience (m.takeOther 1)

theorem start_perm {side : Side} {otherFirst : α → α → Option Bool} {patience rest : Nat}
    {held other merged : List α}
    (h : start side otherFirst patience held other = some (merged, rest)) :
    merged.Perm (other ++ held) :=
  (run_perm h).trans (take_other_perm ⟨[], held, other⟩ 1)

end Merging

/-- Merges two runs and hands on the patience. -/
def merge (before : α → α → Option Bool) (patience : Nat) (left right : List α) :
    Option (List α × Nat) :=
  match right with
  | [] => some (left, patience)
  | first :: _ => do
    let n ← gallop .front (fun x => (before first x).map not) left
    let placed := left.take n
    let left := left.drop n
    match left.getLast? with
    | none => return (placed ++ right, patience)
    | some last =>
      let n ← gallop .back (fun x => (before x last).map not) right.reverse
      let count := right.length - n
      let kept := right.drop count
      let right := right.take count
      if right.isEmpty then return (placed ++ left ++ kept, patience)
      else if left.length ≤ right.length then
        let (merged, patience) ← Merging.start .front (fun x y => before y x) patience left right
        return (placed ++ merged ++ kept, patience)
      else
        let (merged, patience) ←
          Merging.start .back (fun x y => before x y) patience right.reverse left.reverse
        return (placed ++ merged.reverse ++ kept, patience)

theorem merge_perm {before : α → α → Option Bool} {patience rest : Nat} {left right merged : List α}
    (h : merge before patience left right = some (merged, rest)) :
    merged.Perm (left ++ right) := by
  unfold merge at h
  split at h
  · simp only [Option.some.injEq, Prod.mk.injEq] at h
    simp [h.1]
  · next first others =>
    obtain ⟨n, _, h⟩ := Option.bind_eq_some_iff.1 h
    dsimp only at h
    rw [← List.take_append_drop n left]
    generalize left.take n = placed at h ⊢
    generalize left.drop n = moving at h ⊢
    split at h
    · next none =>
      simp only [Option.pure_def, Option.some.injEq, Prod.mk.injEq] at h
      simp [← h.1, List.getLast?_eq_none_iff.1 none]
    · next last _ =>
      obtain ⟨n, _, h⟩ := Option.bind_eq_some_iff.1 h
      generalize (first :: others).length - n = count at h
      rw [← List.take_append_drop count (first :: others)]
      generalize (first :: others).take count = faced at h ⊢
      generalize (first :: others).drop count = kept at h ⊢
      split at h
      · next empty =>
        simp only [Option.pure_def, Option.some.injEq, Prod.mk.injEq] at h
        simp [← h.1, List.isEmpty_iff.1 empty]
      · have close {middle : List α} (parts : middle.Perm (faced ++ moving)) :
            (placed ++ middle ++ kept).Perm (placed ++ moving ++ (faced ++ kept)) := by
          rw [List.append_assoc, List.append_assoc]
          refine List.Perm.append_left placed ?_
          rw [← List.append_assoc]
          exact (parts.trans List.perm_append_comm).append_right kept
        split at h
        · obtain ⟨⟨middle, _⟩, inner, h⟩ := Option.bind_eq_some_iff.1 h
          simp only [Option.pure_def, Option.some.injEq, Prod.mk.injEq] at h
          exact h.1 ▸ close (Merging.start_perm inner)
        · obtain ⟨⟨middle, _⟩, inner, h⟩ := Option.bind_eq_some_iff.1 h
          simp only [Option.pure_def, Option.some.injEq, Prod.mk.injEq] at h
          have parts := Merging.start_perm inner
          refine h.1 ▸ close ((List.reverse_perm _).trans (parts.trans ?_))
          exact ((List.reverse_perm _).append (List.reverse_perm _)).trans List.perm_append_comm

end ContractGraph.RunSort
