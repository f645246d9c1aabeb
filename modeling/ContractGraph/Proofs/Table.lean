import ContractGraph.Proofs.Occurrences
import ContractGraph.Table
import Mathlib.Data.List.Forall2
import Mathlib.Data.List.Pairwise

/-!
# Tables filled from lists

Of entries that are put into a table one after the other, the last under each key is there, at the
place of the first. Items that correspond one by one leave entries that do.
-/

namespace ContractGraph

set_option autoImplicit false

section Related

variable {ι ω κ : Type} {R : ι → ω → Prop}

theorem map_eq_of_related {key : ι → κ} {label : ω → κ} (agree : ∀ i w, R i w → key i = label w)
    {items : List ι} {others : List ω} (related : List.Forall₂ R items others) :
    items.map key = others.map label := by
  induction related with
  | nil => rfl
  | cons here _ ih => rw [List.map_cons, List.map_cons, agree _ _ here, ih]

theorem find_related {p : ι → Bool} {q : ω → Bool} (agree : ∀ i w, R i w → p i = q w)
    {items : List ι} {others : List ω} (related : List.Forall₂ R items others) :
    Option.Rel R (items.find? p) (others.find? q) := by
  induction related with
  | nil => exact .none
  | @cons i w _ _ here _ ih =>
    rw [List.find?_cons, List.find?_cons, ← agree i w here]
    cases p i with
    | true => exact .some here
    | false => exact ih

theorem filter_map_related {f : κ → Option ι} {g : κ → Option ω}
    (related : ∀ k, Option.Rel R (f k) (g k)) (keys : List κ) :
    List.Forall₂ R (keys.filterMap f) (keys.filterMap g) := by
  induction keys with
  | nil => exact .nil
  | cons k rest ih =>
    have here := related k
    rw [List.filterMap_cons, List.filterMap_cons]
    cases first : f k <;> cases second : g k <;> rw [first, second] at here
    · exact ih
    · cases here
    · cases here
    · cases here with
      | some same => exact .cons same ih

end Related

variable {ι κ α : Type} [BEq κ]

/-- The last item with each key, in the order in which the keys first occur. -/
def lastOfEach (key : ι → κ) (items : List ι) : List ι :=
  ((items.map key).eraseDups).filterMap fun k => items.reverse.find? fun i => key i == k

theorem mem_of_last_of_each {key : ι → κ} {items : List ι} {i : ι}
    (member : i ∈ lastOfEach key items) : i ∈ items := by
  obtain ⟨k, -, found⟩ := List.mem_filterMap.mp member
  exact List.mem_reverse.mp (List.mem_of_find?_eq_some found)

theorem last_of_each_map {ω : Type} (key : ω → κ) (f : ι → ω) (items : List ι) :
    lastOfEach key (items.map f) = (lastOfEach (fun i => key (f i)) items).map f := by
  rw [lastOfEach, lastOfEach, List.map_filterMap, List.map_map, ← List.map_reverse]
  simp only [List.find?_map]
  rfl

/-- Items that correspond one by one, with the same keys, have last items that do. -/
theorem last_of_each_related {ω : Type} {R : ι → ω → Prop} {key : ι → κ} {label : ω → κ}
    (agree : ∀ i w, R i w → key i = label w) {items : List ι} {others : List ω}
    (related : List.Forall₂ R items others) :
    List.Forall₂ R (lastOfEach key items) (lastOfEach label others) := by
  rw [lastOfEach, lastOfEach, map_eq_of_related agree related]
  apply filter_map_related
  intro k
  apply find_related
  · intro i w here
    rw [agree i w here]
  · exact List.forall₂_reverse_iff.mpr related

namespace Table

theorem alter_entries_keys (key : κ) (change : α → α) (fresh : α) (entries : List (κ × α)) :
    (alterEntries key change fresh entries).map (·.1) =
      if entries.any fun e => e.1 == key then entries.map (·.1)
      else entries.map (·.1) ++ [key] := by
  induction entries with
  | nil => rfl
  | cons e rest ih =>
    rcases e with ⟨k, v⟩
    rw [alterEntries, List.any_cons]
    cases same : k == key
    · simp only [Bool.false_or, Bool.false_eq_true, if_false, List.map_cons, ih]
      split <;> rfl
    · simp

theorem keys_insert (t : Table κ α) (key : κ) (value : α) :
    (t.insert key value).keys = if t.contains key then t.keys else t.keys ++ [key] :=
  alter_entries_keys key _ value t.entries

/-- No two entries stand under keys that are the same. -/
theorem entry_unique [EquivBEq κ] {t : Table κ α} {d e : κ × α} (first : d ∈ t.entries)
    (second : e ∈ t.entries) (same : (d.1 == e.1) = true) : d = e := by
  have symmetric : Std.Symm fun a b : κ × α => (a.1 == b.1) = false :=
    ⟨fun a b apart => BEq.comm.trans apart⟩
  by_contra apart
  rw [t.distinct.forall first second apart] at same
  cases same

variable [LawfulBEq κ]

theorem keys_of_list (entries : List (κ × α)) :
    (ofList entries).keys = (entries.map (·.1)).eraseDups := by
  induction entries using List.reverseRecOn with
  | nil => rfl
  | append_singleton entries e ih =>
    have added : ofList (entries ++ [e]) = (ofList entries).insert e.1 e.2 := by
      simp [ofList]
    have known : (ofList entries).contains e.1 = true ↔ e.1 ∈ entries.map (·.1) := by
      rw [contains_eq, Option.isSome_iff_exists, ← mem_keys_iff, ih, List.mem_eraseDups]
    rw [added, keys_insert, ih, List.map_append, List.map_singleton, erase_dups_append_one]
    by_cases listed : e.1 ∈ entries.map (·.1)
    · rw [if_pos (known.mpr listed), if_pos listed]
    · rw [if_neg (mt known.mp listed), if_neg listed]

theorem entries_by_keys (t : Table κ α) :
    t.entries = t.keys.filterMap fun key => (t.get? key).map fun value => (key, value) := by
  rw [keys, List.filterMap_map]
  have found : ∀ e ∈ t.entries,
      ((fun key => (t.get? key).map fun value => (key, value)) ∘ (·.1)) e = some e := by
    intro e member
    simp only [Function.comp_apply, (t.get_eq_some_iff e.1 e.2).mpr member, Option.map_some]
  rw [List.filterMap_congr found, List.filterMap_some]

/-- Of entries put one after the other, the last under each key is there, at the place of the first. -/
theorem entries_of_list (entries : List (κ × α)) :
    (ofList entries).entries = lastOfEach (·.1) entries := by
  rw [entries_by_keys, keys_of_list, lastOfEach]
  refine List.filterMap_congr ?_
  intro key _
  rw [get_of_list]
  cases found : entries.reverse.find? fun e => e.1 == key with
  | none => rfl
  | some e =>
    have same : e.1 = key := eq_of_beq (by simpa using List.find?_some found)
    simp [← same]

/-- Tables with the same entries in some order have the same values. -/
theorem get_of_perm {t u : Table κ α} (perm : t.entries.Perm u.entries) (key : κ) :
    t.get? key = u.get? key := by
  apply Option.ext
  intro value
  rw [t.get_eq_some_iff, u.get_eq_some_iff, perm.mem_iff]

end Table

end ContractGraph
