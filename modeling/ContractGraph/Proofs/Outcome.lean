import ContractGraph.Fault
import Mathlib.Data.List.Forall2

/-!
# Outcomes of passes over lists

A pass over a list that may fail succeeds when every step does, and what every successful step
keeps holds at the end of a successful pass.
-/

namespace ContractGraph

set_option autoImplicit false

variable {α β γ ε : Type}

/-- A sequence that succeeds goes through an outcome of its first part. -/
theorem ok_of_bind {x : Except ε α} {f : α → Except ε β} {b : β} (done : x >>= f = .ok b) :
    ∃ a, x = .ok a ∧ f a = .ok b := by
  rcases x with fault | a
  · cases done
  · exact ⟨a, rfl, done⟩

/-- A sequence that fails does so in its first part or after it. -/
theorem error_of_bind {x : Except ε α} {f : α → Except ε β} {e : ε} (failed : x >>= f = .error e) :
    x = .error e ∨ ∃ a, x = .ok a ∧ f a = .error e := by
  rcases x with fault | a
  · cases failed
    exact .inl rfl
  · exact .inr ⟨a, rfl, failed⟩

theorem ok_of_map {x : Except ε α} {f : α → β} {b : β} (done : x.map f = .ok b) :
    ∃ a, x = .ok a ∧ f a = b := by
  rcases x with fault | a
  · cases done
  · exact ⟨a, rfl, Except.ok.inj done⟩

theorem map_each_ok {f : α → Except ε β} {g : α → β} {items : List α}
    (each : ∀ a ∈ items, f a = .ok (g a)) : items.mapM f = .ok (items.map g) := by
  induction items with
  | nil => rfl
  | cons a rest ih =>
    have first : f a = .ok (g a) := each a List.mem_cons_self
    have others := ih fun b member => each b (List.mem_cons_of_mem a member)
    rw [List.mapM_cons, first, others]
    rfl

/-- A pass succeeds with the results of its steps. -/
theorem map_ok_iff {f : α → Except ε β} {items : List α} {results : List β} :
    items.mapM f = .ok results ↔ List.Forall₂ (fun a b => f a = .ok b) items results := by
  induction items generalizing results with
  | nil =>
    rw [List.mapM_nil, List.forall₂_nil_left_iff]
    exact ⟨fun same => (Except.ok.inj same).symm, fun same => congrArg Except.ok same.symm⟩
  | cons a rest ih =>
    rw [List.mapM_cons, List.forall₂_cons_left_iff]
    constructor
    · intro done
      obtain ⟨b, first, done⟩ := ok_of_bind done
      obtain ⟨others, later, done⟩ := ok_of_bind done
      cases done
      exact ⟨b, others, first, ih.mp later, rfl⟩
    · rintro ⟨b, others, first, later, rfl⟩
      rw [first, ih.mpr later]
      rfl

/-- Items can be related to a list of results when each of them can be to some result. -/
theorem exists_forall_two_iff {R : α → β → Prop} {items : List α} :
    (∃ results, List.Forall₂ R items results) ↔ ∀ a ∈ items, ∃ b, R a b := by
  constructor
  · rintro ⟨results, each⟩
    induction each with
    | nil => simp
    | cons here _ ih => exact List.forall_mem_cons.mpr ⟨⟨_, here⟩, ih⟩
  · intro each
    induction items with
    | nil => exact ⟨[], .nil⟩
    | cons a rest ih =>
      obtain ⟨b, here⟩ := each a List.mem_cons_self
      obtain ⟨others, later⟩ := ih fun c member => each c (List.mem_cons_of_mem a member)
      exact ⟨b :: others, .cons here later⟩

theorem exists_of_map_ok {f : α → Except ε β} {items : List α} {results : List β}
    (done : items.mapM f = .ok results) {b : β} (member : b ∈ results) :
    ∃ a ∈ items, f a = .ok b := by
  induction items generalizing results with
  | nil =>
    cases done
    cases member
  | cons a rest ih =>
    rw [List.mapM_cons] at done
    obtain ⟨c, first, done⟩ := ok_of_bind done
    obtain ⟨others, later, done⟩ := ok_of_bind done
    cases done
    rcases List.mem_cons.mp member with rfl | member
    · exact ⟨a, List.mem_cons_self, first⟩
    · obtain ⟨d, there, made⟩ := ih later member
      exact ⟨d, List.mem_cons_of_mem a there, made⟩

theorem exists_map_ok_iff {f : α → Except ε β} {items : List α} :
    (∃ results, items.mapM f = .ok results) ↔ ∀ a ∈ items, ∃ b, f a = .ok b := by
  simp only [map_ok_iff]
  exact exists_forall_two_iff

/-- A pass that succeeds does so in any order of the items. -/
theorem map_ok_of_perm {f : α → Except ε β} {items others : List α} {results : List β}
    (perm : items.Perm others) (done : items.mapM f = .ok results) :
    ∃ more, others.mapM f = .ok more ∧ results.Perm more := by
  induction perm generalizing results with
  | nil => exact ⟨results, done, .refl results⟩
  | cons a _ ih =>
    rw [List.mapM_cons] at done
    obtain ⟨b, first, done⟩ := ok_of_bind done
    obtain ⟨rest, later, done⟩ := ok_of_bind done
    cases done
    obtain ⟨more, other, same⟩ := ih later
    refine ⟨b :: more, ?_, same.cons b⟩
    rw [List.mapM_cons, first, other]
    rfl
  | swap a b items =>
    simp only [List.mapM_cons] at done
    obtain ⟨c, first, done⟩ := ok_of_bind done
    obtain ⟨tail, inner, done⟩ := ok_of_bind done
    obtain ⟨d, second, inner⟩ := ok_of_bind inner
    obtain ⟨rest, later, inner⟩ := ok_of_bind inner
    cases inner
    cases done
    refine ⟨d :: c :: rest, ?_, .swap d c rest⟩
    simp only [List.mapM_cons, first, second, later]
    rfl
  | trans _ _ before after =>
    obtain ⟨middle, between, same⟩ := before done
    obtain ⟨more, other, equal⟩ := after between
    exact ⟨more, other, same.trans equal⟩

/-- A fold whose steps first read their item is a pass of readings with a plain fold behind it. -/
theorem fold_of_map {f : β → α → Except ε β} {g : α → Except ε γ} {h : β → γ → β}
    (step : ∀ b a, f b a = (g a).map (h b)) (items : List α) (b : β) :
    items.foldlM f b = (items.mapM g).map fun rows => rows.foldl h b := by
  induction items generalizing b with
  | nil => rfl
  | cons a rest ih =>
    rw [List.foldlM_cons, List.mapM_cons, step]
    cases g a with
    | error fault => rfl
    | ok row =>
      refine (ih (h b row)).trans ?_
      cases rest.mapM g <;> rfl

theorem fold_congr {f g : β → α → Except ε β} {items : List α}
    (same : ∀ a ∈ items, ∀ b, f b a = g b a) (b : β) : items.foldlM f b = items.foldlM g b := by
  induction items generalizing b with
  | nil => rfl
  | cons a rest ih =>
    have others := ih fun c member => same c (List.mem_cons_of_mem a member)
    rw [List.foldlM_cons, List.foldlM_cons, same a List.mem_cons_self]
    simp only [others]

theorem fold_each_ok {f : β → α → Except ε β} {g : β → α → β} {items : List α}
    (each : ∀ a ∈ items, ∀ b, f b a = .ok (g b a)) (b : β) :
    items.foldlM f b = .ok (items.foldl g b) := by
  rw [fold_congr each b]
  exact List.foldlM_pure

/-- A fold whose steps succeed or not by their item alone succeeds when each of them does. -/
theorem fold_ok_iff {f : β → α → Except ε β} {P : α → Prop} {items : List α}
    (step : ∀ a b, (∃ b', f b a = .ok b') ↔ P a) (b : β) :
    (∃ b', items.foldlM f b = .ok b') ↔ ∀ a ∈ items, P a := by
  induction items generalizing b with
  | nil => exact ⟨by simp, fun _ => ⟨b, rfl⟩⟩
  | cons a rest ih =>
    rw [List.forall_mem_cons, List.foldlM_cons]
    constructor
    · rintro ⟨b', done⟩
      obtain ⟨middle, here, done⟩ := ok_of_bind done
      exact ⟨(step a b).mp ⟨middle, here⟩, (ih middle).mp ⟨b', done⟩⟩
    · rintro ⟨first, later⟩
      obtain ⟨middle, here⟩ := (step a b).mpr first
      obtain ⟨b', done⟩ := (ih middle).mpr later
      exact ⟨b', by rw [here]; exact done⟩

theorem fold_keeps {f : β → α → Except ε β} {items : List α} (P : β → Prop)
    (step : ∀ a ∈ items, ∀ b b', P b → f b a = .ok b' → P b') {b b' : β} (start : P b)
    (done : items.foldlM f b = .ok b') : P b' := by
  induction items generalizing b with
  | nil =>
    cases done
    exact start
  | cons a rest ih =>
    rw [List.foldlM_cons] at done
    obtain ⟨middle, here, done⟩ := ok_of_bind done
    have kept := step a List.mem_cons_self b middle start here
    exact ih (fun c member => step c (List.mem_cons_of_mem a member)) kept done

theorem for_each_ok {f : α → Except ε Unit} {items : List α}
    (each : ∀ a ∈ items, f a = .ok ()) : items.forM f = .ok () := by
  induction items with
  | nil => rfl
  | cons a rest ih =>
    rw [List.forM, each a List.mem_cons_self]
    exact ih fun b member => each b (List.mem_cons_of_mem a member)

theorem filter_each_ok {p : α → Except ε Bool} {q : α → Bool} {items : List α}
    (each : ∀ a ∈ items, p a = .ok (q a)) : items.filterM p = .ok (items.filter q) := by
  have pass : ∀ taken : List α, List.filterAuxM p items taken =
      .ok ((items.filter q).reverse ++ taken) := by
    induction items with
    | nil =>
      intro taken
      rfl
    | cons a rest ih =>
      intro taken
      have first : p a = .ok (q a) := each a List.mem_cons_self
      have others := ih fun b member => each b (List.mem_cons_of_mem a member)
      have step : List.filterAuxM p (a :: rest) taken =
          List.filterAuxM p rest (if q a then a :: taken else taken) := by
        rw [List.filterAuxM, first]
        cases q a <;> rfl
      rw [step, others]
      cases here : q a <;> simp [here]
  have whole : items.filterM p = (List.filterAuxM p items []).map List.reverse := by
    rw [List.filterM, pass]
    rfl
  rw [whole, pass]
  simp [Except.map]

/-- A pass that keeps some items succeeds when every question is answered. -/
theorem filter_ok_iff {p : α → Except ε Bool} {items kept : List α} :
    items.filterM p = .ok kept ↔ (∀ a ∈ items, ∃ b, p a = .ok b) ∧
      kept = items.filter fun a => (p a).toOption.getD false := by
  have answered : (∀ a ∈ items, ∃ b, p a = .ok b) →
      items.filterM p = .ok (items.filter fun a => (p a).toOption.getD false) := by
    intro each
    refine filter_each_ok ?_
    intro a member
    obtain ⟨b, answer⟩ := each a member
    rw [answer]
    rfl
  have asked : ∀ taken results : List α, List.filterAuxM p items taken = .ok results →
      ∀ a ∈ items, ∃ b, p a = .ok b := by
    clear answered
    induction items with
    | nil =>
      intro taken results _ a member
      cases member
    | cons a rest ih =>
      intro taken results done
      obtain ⟨b, first, done⟩ := ok_of_bind done
      exact List.forall_mem_cons.mpr ⟨⟨b, first⟩, ih _ results done⟩
  constructor
  · intro done
    obtain ⟨taken, passed, -⟩ := ok_of_bind done
    have each := asked [] taken passed
    exact ⟨each, (Except.ok.inj ((answered each).symm.trans done)).symm⟩
  · rintro ⟨each, rfl⟩
    exact answered each

theorem Logged.ok_of_bind {x : Logged α} {f : α → Logged β} {b : β}
    (done : (x >>= f).outcome = .ok b) : ∃ a, x.outcome = .ok a ∧ (f a).outcome = .ok b := by
  rw [outcome_bind] at done
  exact ContractGraph.ok_of_bind done

theorem Logged.error_of_bind {x : Logged α} {f : α → Logged β} {e : Fault}
    (failed : (x >>= f).outcome = .error e) :
    x.outcome = .error e ∨ ∃ a, x.outcome = .ok a ∧ (f a).outcome = .error e := by
  rw [outcome_bind] at failed
  exact ContractGraph.error_of_bind failed

theorem Logged.after_pure (a : α) (f : α → Logged β) :
    (Pure.pure a : Logged α) >>= f = f a := rfl

theorem Logged.outcome_of_ok {x : Logged α} {f : α → Logged β} {a : α} (first : x.outcome = .ok a) :
    (x >>= f).outcome = (f a).outcome := by
  rw [outcome_bind, first]
  rfl

theorem Logged.outcome_of_error {x : Logged α} {f : α → Logged β} {e : Fault}
    (failed : x.outcome = .error e) : (x >>= f).outcome = .error e := by
  rw [outcome_bind, failed]
  rfl

theorem Logged.outcome_map (f : α → β) (x : Logged α) : (f <$> x).outcome = x.outcome.map f := by
  rcases x with ⟨events, outcome⟩
  cases outcome <;> rfl

theorem Logged.outcome_lift (x : Except ShapeFault α) :
    (liftM x : Logged α).outcome = x.mapError .shape := rfl

theorem Logged.ok_of_lift {x : Except ShapeFault α} {a : α}
    (done : (liftM x : Logged α).outcome = .ok a) : x = .ok a := by
  rcases x with fault | a'
  · cases done
  · cases done
    rfl

theorem Logged.shape_of_lift {x : Except ShapeFault α} {e : Fault}
    (failed : (liftM x : Logged α).outcome = .error e) : ∃ fault, e = .shape fault := by
  rcases x with fault | a
  · cases failed
    exact ⟨fault, rfl⟩
  · cases failed

theorem Logged.fold_keeps {f : β → α → Logged β} {items : List α} (P : β → Prop)
    (step : ∀ a ∈ items, ∀ b b', P b → (f b a).outcome = .ok b' → P b') {b b' : β} (start : P b)
    (done : (items.foldlM f b).outcome = .ok b') : P b' := by
  induction items generalizing b with
  | nil =>
    have same : b = b' := by simpa using done
    exact same ▸ start
  | cons a rest ih =>
    rw [List.foldlM_cons] at done
    obtain ⟨middle, here, done⟩ := ok_of_bind done
    have kept := step a List.mem_cons_self b middle start here
    exact ih (fun c member => step c (List.mem_cons_of_mem a member)) kept done

theorem Logged.outcome_map_each (f : α → Logged β) (items : List α) :
    (items.mapM f).outcome = items.mapM fun a => (f a).outcome := by
  have pass : ∀ results : List β, (List.mapM.loop f items results).outcome =
      List.mapM.loop (fun a => (f a).outcome) items results := by
    induction items with
    | nil =>
      intro results
      rfl
    | cons a rest ih =>
      intro results
      rw [List.mapM.loop, List.mapM.loop, outcome_bind]
      cases (f a).outcome with
      | error fault => rfl
      | ok b => exact ih (b :: results)
  exact pass []

end ContractGraph
