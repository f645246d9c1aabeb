/-!
# Insertion-ordered tables

A table maps keys to values, holds each key once and keeps its entries in the order in which their
keys were first inserted; a later insertion under the same key replaces the value in place. That no
key occurs twice is part of the type.

The view of a table is its list of entries, and `get?` looks a key up in it.
-/

namespace ContractGraph

set_option autoImplicit false

structure Table (κ α : Type) [BEq κ] where
  entries : List (κ × α)
  distinct : entries.Pairwise fun a b => (a.1 == b.1) = false

namespace Table

variable {κ α β : Type} [BEq κ]

def empty : Table κ α := ⟨[], .nil⟩

instance : Inhabited (Table κ α) := ⟨empty⟩

instance [DecidableEq κ] [DecidableEq α] : DecidableEq (Table κ α) := fun a b =>
  decidable_of_iff (a.entries = b.entries) ⟨fun h => by cases a; cases b; simp_all, fun h => h ▸ rfl⟩

def keys (t : Table κ α) : List κ := t.entries.map (·.1)

def values (t : Table κ α) : List α := t.entries.map (·.2)

def size (t : Table κ α) : Nat := t.entries.length

def get? (t : Table κ α) (key : κ) : Option α :=
  (t.entries.find? fun e => e.1 == key).map (·.2)

def contains (t : Table κ α) (key : κ) : Bool := t.entries.any fun e => e.1 == key

/-- Changes the value under a key, or appends a value for a key that is not there. -/
def alterEntries (key : κ) (change : α → α) (fresh : α) : List (κ × α) → List (κ × α)
  | [] => [(key, fresh)]
  | (k, v) :: rest =>
    if k == key then (k, change v) :: rest else (k, v) :: alterEntries key change fresh rest

theorem mem_alter_entries {key : κ} {change : α → α} {fresh : α} {entries : List (κ × α)}
    {e : κ × α} (h : e ∈ alterEntries key change fresh entries) :
    e.1 = key ∨ ∃ d ∈ entries, e.1 = d.1 := by
  induction entries with
  | nil => simp_all [alterEntries]
  | cons d rest ih =>
    unfold alterEntries at h
    split at h
    · rcases List.mem_cons.1 h with rfl | h
      · exact .inr ⟨d, List.mem_cons_self, rfl⟩
      · exact .inr ⟨e, List.mem_cons_of_mem _ h, rfl⟩
    · rcases List.mem_cons.1 h with rfl | h
      · exact .inr ⟨_, List.mem_cons_self, rfl⟩
      · rcases ih h with h | ⟨d', hd, h⟩
        · exact .inl h
        · exact .inr ⟨d', List.mem_cons_of_mem _ hd, h⟩

theorem alter_entries_distinct (key : κ) (change : α → α) (fresh : α) {entries : List (κ × α)}
    (h : entries.Pairwise fun a b => (a.1 == b.1) = false) :
    (alterEntries key change fresh entries).Pairwise fun a b => (a.1 == b.1) = false := by
  induction h with
  | nil => simp [alterEntries]
  | @cons d rest first _ ih =>
    rcases d with ⟨k, v⟩
    unfold alterEntries
    split
    · next here => exact List.Pairwise.cons (fun e he => first e he) ‹_›
    · next other =>
      refine List.Pairwise.cons (fun e he => ?_) ih
      rcases mem_alter_entries he with h | ⟨d, hd, h⟩
      · simpa [h] using other
      · simpa [h] using first d hd

/-- Changes the value under a key in place, or inserts a value for a new key. -/
def alter (t : Table κ α) (key : κ) (change : α → α) (fresh : α) : Table κ α :=
  ⟨alterEntries key change fresh t.entries, alter_entries_distinct key change fresh t.distinct⟩

/-- Puts a value under a key. -/
def insert (t : Table κ α) (key : κ) (value : α) : Table κ α := t.alter key (fun _ => value) value

/-- Puts a value under a key that has none yet. -/
def insertNew (t : Table κ α) (key : κ) (value : α) : Table κ α := t.alter key id value

/-- Appends an item to the list under a key. -/
def append {ι : Type} (t : Table κ (List ι)) (key : κ) (item : ι) : Table κ (List ι) :=
  t.alter key (· ++ [item]) [item]

/-- The table of entries inserted one after the other. -/
def ofList (entries : List (κ × α)) : Table κ α :=
  entries.foldl (fun t e => t.insert e.1 e.2) empty

def map (f : κ → α → β) (t : Table κ α) : Table κ β where
  entries := t.entries.map fun e => (e.1, f e.1 e.2)
  distinct := List.pairwise_map.2 t.distinct

/-- Changes the value under a key, if there is one. -/
def modify (t : Table κ α) (key : κ) (change : α → α) : Table κ α :=
  t.map fun k v => if k == key then change v else v

def filter (p : κ → α → Bool) (t : Table κ α) : Table κ α where
  entries := t.entries.filter fun e => p e.1 e.2
  distinct := t.distinct.sublist List.filter_sublist

theorem eq_of_entries {t u : Table κ α} (h : t.entries = u.entries) : t = u := by
  cases t
  cases u
  simp_all

@[simp] theorem keys_map (f : κ → α → β) (t : Table κ α) : (t.map f).keys = t.keys := by
  simp [keys, map]

theorem map_map {γ : Type} (f : κ → α → β) (g : κ → β → γ) (t : Table κ α) :
    (t.map f).map g = t.map fun k v => g k (f k v) := by
  simp [map]

@[simp] theorem keys_modify (t : Table κ α) (key : κ) (change : α → α) :
    (t.modify key change).keys = t.keys := by
  simp [modify]

@[simp] theorem entries_empty : (empty : Table κ α).entries = [] := rfl

@[simp] theorem get_empty (key : κ) : (empty : Table κ α).get? key = none := rfl

theorem contains_eq (t : Table κ α) (key : κ) : t.contains key = (t.get? key).isSome := by
  rw [Bool.eq_iff_iff, contains, get?, Option.isSome_map, List.find?_isSome, List.any_eq_true]

theorem alter_entries_fresh {key : κ} {change : α → α} {fresh : α} {entries : List (κ × α)}
    (absent : ∀ e ∈ entries, (e.1 == key) = false) :
    alterEntries key change fresh entries = entries ++ [(key, fresh)] := by
  induction entries with
  | nil => rfl
  | cons e rest ih =>
    rcases e with ⟨k, v⟩
    have other : (k == key) = false := absent (k, v) List.mem_cons_self
    rw [alterEntries, other, ih fun d member => absent d (List.mem_cons_of_mem _ member)]
    rfl

/-- Entries whose keys are all different stand as they were put. -/
theorem entries_fold_insert {entries : List (κ × α)} {t : Table κ α}
    (distinct : (t.entries ++ entries).Pairwise fun a b => (a.1 == b.1) = false) :
    (entries.foldl (fun t e => t.insert e.1 e.2) t).entries = t.entries ++ entries := by
  induction entries generalizing t with
  | nil => simp
  | cons e rest ih =>
    have absent : ∀ d ∈ t.entries, (d.1 == e.1) = false := by
      intro d member
      exact (List.pairwise_append.mp distinct).2.2 d member e List.mem_cons_self
    have put : (t.insert e.1 e.2).entries = t.entries ++ [e] := alter_entries_fresh absent
    rw [List.foldl_cons, ih (by rw [put]; simpa using distinct), put]
    simp

theorem of_list_entries (t : Table κ α) : ofList t.entries = t :=
  eq_of_entries (entries_fold_insert t.distinct)

theorem alter_entries_keep {P : κ → α → Prop} {key : κ} {change : α → α} {fresh : α}
    {entries : List (κ × α)} (each : ∀ e ∈ entries, P e.1 e.2)
    (changed : ∀ k v, P k v → P k (change v)) (new : P key fresh) :
    ∀ e ∈ alterEntries key change fresh entries, P e.1 e.2 := by
  induction entries with
  | nil => exact List.forall_mem_singleton.mpr new
  | cons e rest ih =>
    have first := each e List.mem_cons_self
    have others := fun d member => each d (List.mem_cons_of_mem e member)
    unfold alterEntries
    split
    · exact List.forall_mem_cons.mpr ⟨changed _ _ first, others⟩
    · exact List.forall_mem_cons.mpr ⟨first, ih others⟩

/-- What is found stands under a key that is the same. -/
theorem entry_of_get {t : Table κ α} {key : κ} {value : α} (found : t.get? key = some value) :
    ∃ e ∈ t.entries, (e.1 == key) = true ∧ e.2 = value := by
  obtain ⟨e, here, same⟩ := Option.map_eq_some_iff.1 found
  exact ⟨e, List.mem_of_find?_eq_some here, by simpa using List.find?_some here, same⟩

section Equivalent

variable [EquivBEq κ]

theorem get_append {ι : Type} (t : Table κ (List ι)) (key other : κ) (item : ι) :
    ((t.append key item).get? other).getD [] =
      (t.get? other).getD [] ++ if key == other then [item] else [] := by
  rcases t with ⟨entries, distinct⟩
  simp only [append, alter, get?]
  clear distinct
  induction entries with
  | nil => cases asked : key == other <;> simp [alterEntries, asked]
  | cons d rest ih =>
    rcases d with ⟨k, items⟩
    by_cases same : (k == key) = true
    · have moved : (k == other) = (key == other) := BEq.congr_left same
      cases asked : key == other <;> simp [alterEntries, same, moved, asked]
    · by_cases here : (k == other) = true
      · have apart : (key == other) = false := by
          apply Bool.eq_false_iff.2
          intro asked
          exact same (BEq.trans here (BEq.symm asked))
        simp [alterEntries, same, here, apart]
      · simpa [alterEntries, same, List.find?_cons, here] using ih

/-- Items appended one after the other stand under their key in the order of the items. -/
theorem get_fold_append {ι ω : Type} (keyOf : ι → κ) (itemOf : ι → ω) (items : List ι)
    (t : Table κ (List ω)) (key : κ) :
    ((items.foldl (fun t i => t.append (keyOf i) (itemOf i)) t).get? key).getD [] =
      (t.get? key).getD [] ++ (items.filter fun i => keyOf i == key).map itemOf := by
  induction items generalizing t with
  | nil => simp
  | cons i rest ih =>
    rw [List.foldl_cons, ih, get_append, List.filter_cons, List.append_assoc]
    cases keyOf i == key <;> rfl

theorem get_of_mem {t : Table κ α} {e : κ × α} (member : e ∈ t.entries) :
    t.get? e.1 = some e.2 := by
  rcases t with ⟨entries, distinct⟩
  simp only [get?]
  induction distinct with
  | nil => cases member
  | @cons d rest first _ ih =>
    rcases List.mem_cons.1 member with rfl | later
    · simp
    · simpa [List.find?_cons, first e later] using ih later

end Equivalent

section Lawful

variable [LawfulBEq κ]

theorem keys_nodup (t : Table κ α) : t.keys.Nodup :=
  List.pairwise_map.2 (t.distinct.imp fun h => by simpa using h)

theorem get_alter_self (t : Table κ α) (key : κ) (change : α → α) (fresh : α) :
    (t.alter key change fresh).get? key = some ((t.get? key).elim fresh change) := by
  rcases t with ⟨entries, distinct⟩
  simp only [alter, get?]
  clear distinct
  induction entries with
  | nil => simp [alterEntries]
  | cons d rest ih =>
    rcases d with ⟨k, v⟩
    by_cases same : k = key
    · simp [alterEntries, same]
    · simpa [alterEntries, same, List.find?_cons] using ih

theorem get_alter_of_ne (t : Table κ α) {key other : κ} (change : α → α) (fresh : α)
    (h : other ≠ key) : (t.alter key change fresh).get? other = t.get? other := by
  rcases t with ⟨entries, distinct⟩
  simp only [alter, get?]
  clear distinct
  induction entries with
  | nil => simp [alterEntries, Ne.symm h]
  | cons d rest ih =>
    rcases d with ⟨k, v⟩
    by_cases same : k = key
    · simp [alterEntries, same, Ne.symm h]
    · by_cases here : k = other
      · simp [alterEntries, here, h]
      · simpa [alterEntries, same, here, List.find?_cons] using ih

@[simp] theorem get_insert_self (t : Table κ α) (key : κ) (value : α) :
    (t.insert key value).get? key = some value := by
  rw [insert, get_alter_self]
  cases t.get? key <;> rfl

theorem get_insert_of_ne (t : Table κ α) {key other : κ} (value : α) (h : other ≠ key) :
    (t.insert key value).get? other = t.get? other := t.get_alter_of_ne _ _ h

theorem get_eq_some_iff (t : Table κ α) (key : κ) (value : α) :
    t.get? key = some value ↔ (key, value) ∈ t.entries := by
  constructor
  · intro found
    obtain ⟨⟨k, v⟩, member, same, rfl⟩ := entry_of_get found
    obtain rfl := eq_of_beq same
    exact member
  · intro member
    exact get_of_mem member

theorem mem_insert {t : Table κ α} {key : κ} {value : α} {e : κ × α}
    (h : e ∈ (t.insert key value).entries) : e = (key, value) ∨ e.1 ≠ key ∧ e ∈ t.entries := by
  rcases e with ⟨k, v⟩
  rw [← get_eq_some_iff] at h
  by_cases same : k = key
  · subst same
    rw [get_insert_self] at h
    exact .inl (by rw [Option.some.inj h])
  · rw [t.get_insert_of_ne value same, get_eq_some_iff] at h
    exact .inr ⟨same, h⟩

theorem mem_keys_iff (t : Table κ α) (key : κ) :
    key ∈ t.keys ↔ ∃ value, t.get? key = some value := by
  simp [keys, get_eq_some_iff]

theorem mem_keys_insert_iff (t : Table κ α) (key other : κ) (value : α) :
    other ∈ (t.insert key value).keys ↔ other ∈ t.keys ∨ key = other := by
  rw [mem_keys_iff, mem_keys_iff]
  by_cases same : other = key
  · subst same
    simp
  · rw [t.get_insert_of_ne value same]
    simp [Ne.symm same]

theorem get_filter_of_mem {t : Table κ α} {p : κ → α → Bool} {key : κ} {value : α}
    (found : t.get? key = some value) (kept : p key value = true) :
    (t.filter p).get? key = some value := by
  rw [get_eq_some_iff] at found ⊢
  exact List.mem_filter.2 ⟨found, kept⟩

theorem mem_keys_filter_iff (t : Table κ α) (p : κ → α → Bool) (key : κ) :
    key ∈ (t.filter p).keys ↔ ∃ value, t.get? key = some value ∧ p key value = true := by
  simp [keys, filter, get_eq_some_iff]

theorem get_insert_new (t : Table κ α) (key other : κ) (value : α) :
    (t.insertNew key value).get? other =
      (t.get? other).or (if key == other then some value else none) := by
  by_cases same : other = key
  · subst same
    rw [insertNew, get_alter_self]
    cases t.get? other <;> simp
  · rw [insertNew, t.get_alter_of_ne _ _ same]
    simp [Ne.symm same]

theorem get_insert (t : Table κ α) (key other : κ) (value : α) :
    (t.insert key value).get? other = if key == other then some value else t.get? other := by
  by_cases same : other = key
  · subst same
    simp
  · rw [t.get_insert_of_ne value same]
    simp [Ne.symm same]

/-- Of items inserted one after the other, the first under a key is found, unless the key had a
value before. -/
theorem get_fold_insert_new {ι : Type} (keyOf : ι → κ) (valueOf : ι → α) (items : List ι)
    (t : Table κ α) (key : κ) :
    (items.foldl (fun t i => t.insertNew (keyOf i) (valueOf i)) t).get? key =
      (t.get? key).or ((items.find? fun i => keyOf i == key).map valueOf) := by
  induction items generalizing t with
  | nil => simp
  | cons i rest ih =>
    rw [List.foldl_cons, ih, get_insert_new, List.find?_cons]
    cases t.get? key <;> cases keyOf i == key <;> rfl

/-- Of entries put one after the other, the last under a key is found. -/
theorem get_of_list (entries : List (κ × α)) (key : κ) :
    (ofList entries).get? key = (entries.reverse.find? fun e => e.1 == key).map (·.2) := by
  have onto : ∀ t : Table κ α, (entries.foldl (fun t e => t.insert e.1 e.2) t).get? key =
      ((entries.reverse.find? fun e => e.1 == key).map (·.2)).or (t.get? key) := by
    induction entries with
    | nil =>
      intro t
      rfl
    | cons e rest ih =>
      intro t
      rw [List.foldl_cons, ih, get_insert, List.reverse_cons, List.find?_append,
        List.find?_singleton]
      cases rest.reverse.find? fun e => e.1 == key <;> cases e.1 == key <;> rfl
  rw [ofList, onto, get_empty, Option.or_none]

end Lawful

end Table

end ContractGraph
