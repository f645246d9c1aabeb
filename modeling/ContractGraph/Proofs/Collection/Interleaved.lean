import ContractGraph.Proofs.Collection.Turns
import ContractGraph.Proofs.Package.FirstLookup

/-!
# Interleaved collections

Several collections share one manifest and one cache of package files, and their lookups take turns in
any order while the files stay as they are. Each of them returns what it returns alone, in every order,
exactly when no run finds under its root a file in the cache that gives it other versions than its own.
-/

namespace ContractGraph

set_option autoImplicit false

/-- How far a run has come. -/
structure Progress where
  done : List MissingDependency
  left : List MissingDependency

/-- Runs with one cache. -/
structure SharedRuns (ι : Type) where
  cache : VersionCache
  progress : ι → Progress

namespace SharedRuns

variable {ι : Type} (t : FileTree) (m : Manifest) (runs : ι → CollectRun)

def start : SharedRuns ι := ⟨{}, fun i => ⟨[], (runs i).records m⟩⟩

/-- What a run returns, once it is done. -/
def result? (s : SharedRuns ι) (i : ι) : Option (Except Fault Collection) :=
  match (s.progress i).left with
  | [] => some ((runs i).returned m (s.progress i).done)
  | _ => none

/-- What holds after so many turns of each run. -/
structure After (turns : ι → Nat) (s : SharedRuns ι) : Prop where
  cache : s.cache.From fun r file => ∃ j, (runs j).Keeps t m r file
  progress : ∀ i, s.progress i =
    ⟨(((runs i).records m).take (turns i)).map ((runs i).note t), ((runs i).records m).drop (turns i)⟩

theorem After.start : (start m runs).After t m runs fun _ => 0 where
  cache := fun _ _ there => nomatch there
  progress := fun _ => rfl

variable {t m runs} {s : SharedRuns ι} {turns : ι → Nat}

/-- A run that had a turn for each of its records returns what it returns alone. -/
theorem After.result (h : s.After t m runs turns) {i : ι}
    (enough : ((runs i).records m).length ≤ turns i) :
    s.result? m runs i = some ((runs i).alone t m) := by
  rw [result?, h.progress i, (runs i).alone_eq, List.drop_of_length_le enough,
    List.take_of_length_le enough]

variable [DecidableEq ι]

/-- One run has a turn. -/
def step (t : FileTree) (runs : ι → CollectRun) (s : SharedRuns ι) (i : ι) : SharedRuns ι :=
  match (s.progress i).left with
  | [] => s
  | d :: rest =>
    let turn := (runs i).source.turn t s.cache d
    ⟨turn.1, Function.update s.progress i ⟨(s.progress i).done ++ [turn.2], rest⟩⟩

/-- The runs take turns. -/
def interleave (t : FileTree) (m : Manifest) (runs : ι → CollectRun) (schedule : List ι) :
    SharedRuns ι :=
  schedule.foldl (step t runs) (start m runs)

theorem step_done {i : ι} (done : (s.progress i).left = []) : s.step t runs i = s := by
  rw [step, done]

theorem step_left {i : ι} {d : MissingDependency} {rest : List MissingDependency}
    (left : (s.progress i).left = d :: rest) :
    s.step t runs i = ⟨((runs i).source.turn t s.cache d).1, Function.update s.progress i
      ⟨(s.progress i).done ++ [((runs i).source.turn t s.cache d).2], rest⟩⟩ := by
  rw [step, left]

/-- A turn leads one run on and no other one astray. -/
theorem After.step (h : s.After t m runs turns)
    (undisturbed : ∀ i j, (runs i).Undisturbed t m (runs j)) (i : ι) :
    (s.step t runs i).After t m runs (Function.update turns i (turns i + 1)) := by
  have own := h.progress i
  cases left : ((runs i).records m).drop (turns i) with
  | nil =>
    have ended : ((runs i).records m).length ≤ turns i := List.drop_eq_nil_iff.mp left
    rw [step_done (by rw [own]; exact left)]
    refine ⟨h.cache, ?_⟩
    intro j
    by_cases same : j = i
    · subst same
      rw [h.progress j, Function.update_self, List.take_of_length_le ended,
        List.take_of_length_le (Nat.le_succ_of_le ended), left,
        List.drop_of_length_le (Nat.le_succ_of_le ended)]
    · rw [h.progress j, Function.update_of_ne same]
  | cons d rest =>
    have member : d ∈ (runs i).records m :=
      List.mem_of_mem_drop (left ▸ List.mem_cons_self : d ∈ ((runs i).records m).drop (turns i))
    have noted : ((runs i).source.turn t s.cache d).2 = (runs i).note t d := by
      refine CollectRun.turn_note h.cache ?_ member
      rintro folder file source clear ⟨j, keeps⟩
      exact undisturbed i j folder file source clear keeps
    rw [step_left (by rw [own]; exact left), noted]
    refine ⟨CollectRun.turn_from h.cache (fun _ _ keeps => ⟨i, keeps⟩) member, ?_⟩
    intro j
    by_cases same : j = i
    · subst same
      have next : ((runs j).records m)[turns j]? = some d := by
        rw [← List.head?_drop, left]
        rfl
      have others : ((runs j).records m).drop (turns j + 1) = rest := by
        rw [← List.tail_drop, left]
        rfl
      simp only [Function.update_self]
      rw [own, List.take_add_one, next, others, List.map_append]
      rfl
    · simp only [Function.update_of_ne same]
      exact h.progress j

theorem After.run (h : s.After t m runs turns)
    (undisturbed : ∀ i j, (runs i).Undisturbed t m (runs j)) (schedule : List ι) :
    (schedule.foldl (SharedRuns.step t runs) s).After t m runs
      fun i => turns i + schedule.count i := by
  induction schedule generalizing s turns with
  | nil => exact h
  | cons i rest ih =>
    have later := ih (h.step undisturbed i)
    have counted : (fun j => Function.update turns i (turns i + 1) j + rest.count j) =
        fun j => turns j + (i :: rest).count j := by
      funext j
      by_cases same : j = i
      · subst same
        simp
        omega
      · simp [same, Ne.symm same]
    rw [counted] at later
    exact later

/-- A run that has the turns to itself. -/
theorem foldl_replicate {i : ι} {records : List MissingDependency}
    (left : (s.progress i).left = records) :
    (List.replicate records.length i).foldl (SharedRuns.step t runs) s =
      ⟨((runs i).source.turns t s.cache records).1, Function.update s.progress i
        ⟨(s.progress i).done ++ ((runs i).source.turns t s.cache records).2, []⟩⟩ := by
  induction records generalizing s with
  | nil =>
    have own : (⟨(s.progress i).done ++ [], []⟩ : Progress) = s.progress i := by
      rw [List.append_nil, ← left]
    rw [VersionSource.turns, own, Function.update_eq_self]
    rfl
  | cons d rest ih =>
    rw [List.length_cons, List.replicate_succ, List.foldl_cons, step_left left, ih (by simp)]
    simp [VersionSource.turns]

/-- What a run returns when another one went before it. -/
theorem result_of_last (t : FileTree) (m : Manifest) (runs : ι → CollectRun) {i j : ι}
    (apart : ¬j = i) :
    (interleave t m runs (List.replicate ((runs j).records m).length j ++
        List.replicate ((runs i).records m).length i)).result? m runs i =
      some ((runs i).returned m ((runs i).source.turns t
        ((runs j).source.turns t {} ((runs j).records m)).1 ((runs i).records m)).2) := by
  have first : ((start m runs).progress j).left = (runs j).records m := rfl
  rw [interleave, List.foldl_append, foldl_replicate first, foldl_replicate]
  · simp only [result?, Function.update_self, Function.update_of_ne (Ne.symm apart), start,
      List.nil_append]
  · simp only [Function.update_of_ne (Ne.symm apart), start]

end SharedRuns

/-- Runs return in every order of their turns what they return alone exactly when none finds under its
root a file in the cache that gives it another version than it finds itself. -/
theorem runs_undisturbed_iff {ι : Type} [DecidableEq ι] (t : FileTree) (m : Manifest)
    (runs : ι → CollectRun) :
    (∀ schedule i, ((runs i).records m).length ≤ schedule.count i →
        (SharedRuns.interleave t m runs schedule).result? m runs i = some ((runs i).alone t m)) ↔
      ∀ i j, (runs i).Undisturbed t m (runs j) := by
  constructor
  · intro all i j folder file source clear keeps
    by_cases same : j = i
    · exact (same ▸ keeps).bears_own
    · have last := SharedRuns.result_of_last t m runs same
      rw [all _ i (by simp), (runs i).alone_eq, Option.some.injEq] at last
      have left := keeps.left
      intro d member package named
      obtain ⟨c, done⟩ := CollectRun.collected_of_mem member
      have noted := CollectRun.returned_injective done last
      rw [source, VersionSource.turns_of_kept fun d _ => VersionSource.turn_kept clear left d]
        at noted
      have own := List.map_inj_left.mp noted d member
      rw [own, VersionSource.turn_root named, VersionCache.version_kept clear left]
  · intro undisturbed schedule i enough
    have after := (SharedRuns.After.start t m runs).run undisturbed schedule
    exact after.result (by simpa using enough)

/-- A component that uses a package. -/
def packageUser : Manifest where
  components := .ofList [("a.tsx", { entryId := .str "a.tsx", dependencies := [.str "p"] })]
  generatedAt := .str ""
  version := .str Manifest.currentVersion

/-- A run of the folder with the package file, and one that spells the folder through another one that
is not there. -/
def spelledRuns (through : Bool) : CollectRun where
  entryId := "a.tsx"
  depth := .whole 1
  nodes := .whole 2
  source := .root (if through then "gone/../b" else "b")

theorem earlier_run_hides_version :
    ((SharedRuns.interleave packageFolder packageUser spelledRuns [true, false]).result? packageUser
        spelledRuns false).map (Except.map fun c => c.missing.map (·.packageVersion)) =
        some (.ok [none]) ∧
      ((spelledRuns false).alone packageFolder packageUser).map
        (fun c => c.missing.map (·.packageVersion)) = .ok [some "1"] := by
  decide +kernel

end ContractGraph
