/-!
# Sorted texts

Texts in ascending order of their code points.
-/

namespace ContractGraph.Text

set_option autoImplicit false

def atMost (a b : String) : Bool := decide (a ≤ b)

theorem at_most_trans (a b c : String) : atMost a b = true → atMost b c = true →
    atMost a c = true := by
  simpa [atMost] using fun h k => String.le_trans h k

theorem at_most_total (a b : String) : (atMost a b || atMost b a) = true := by
  simpa [atMost] using String.le_total a b

theorem lt_of_at_most {a b : String} (atMost : atMost a b = true) (apart : a ≠ b) : a < b := by
  apply String.not_le.mp
  intro ge
  exact apart (String.le_antisymm (of_decide_eq_true atMost) ge)

def sorted (texts : List String) : List String := texts.mergeSort atMost

theorem sorted_perm (texts : List String) : (sorted texts).Perm texts :=
  List.mergeSort_perm texts atMost

theorem sorted_pairwise (texts : List String) : (sorted texts).Pairwise (· ≤ ·) := by
  have h := List.pairwise_mergeSort at_most_trans at_most_total texts
  exact h.imp fun le => by simpa [atMost] using le

@[simp] theorem mem_sorted {texts : List String} {t : String} : t ∈ sorted texts ↔ t ∈ texts :=
  (sorted_perm texts).mem_iff

/-- Sorted texts tell nothing but the order apart. -/
theorem sorted_eq_iff {texts others : List String} :
    sorted texts = sorted others ↔ texts.Perm others := by
  constructor
  · intro same
    exact (sorted_perm texts).symm.trans (same ▸ sorted_perm others)
  · intro perm
    have sorts := (sorted_perm texts).trans (perm.trans (sorted_perm others).symm)
    refine sorts.eq_of_pairwise ?_ (sorted_pairwise texts) (sorted_pairwise others)
    intro a b _ _ le ge
    exact String.le_antisymm le ge

/-- Texts that are all different stand in strictly ascending order. -/
theorem sorted_ascending {texts : List String} (distinct : texts.Nodup) :
    (sorted texts).Pairwise (· < ·) := by
  have apart : (sorted texts).Nodup := (sorted_perm texts).nodup_iff.mpr distinct
  refine (List.pairwise_and_iff.mpr ⟨sorted_pairwise texts, apart⟩).imp ?_
  intro a b given
  rcases given with ⟨le, ne⟩
  exact lt_of_at_most (decide_eq_true le) ne

theorem nodup_of_ascending {texts : List String} (ascending : texts.Pairwise (· < ·)) :
    texts.Nodup := by
  refine ascending.imp ?_
  intro a b less equal
  exact String.lt_irrefl b (equal ▸ less)

/-- Items in strictly ascending order of a text are given by what is among them. -/
theorem eq_of_ascending_on {α : Type} {key : α → String} {items others : List α}
    (first : items.Pairwise fun a b => key a < key b)
    (second : others.Pairwise fun a b => key a < key b) (same : ∀ a, a ∈ items ↔ a ∈ others) :
    items = others := by
  have nodup : ∀ {items : List α}, (items.Pairwise fun a b => key a < key b) → items.Nodup := by
    intro items ascending
    refine ascending.imp ?_
    intro a b less equal
    exact String.lt_irrefl (key b) (equal ▸ less)
  have perm := (List.perm_ext_iff_of_nodup (nodup first) (nodup second)).mpr same
  refine perm.eq_of_pairwise ?_ first second
  intro a b _ _ less greater
  exact absurd greater (String.lt_asymm less)

/-- Items in ascending order of a text; items with equal texts keep their order. -/
def sortedOn {α : Type} (key : α → String) (items : List α) : List α :=
  items.mergeSort fun a b => atMost (key a) (key b)

theorem map_sorted_on {α : Type} (key : α → String) (items : List α) :
    (sortedOn key items).map key = sorted (items.map key) :=
  List.map_mergeSort fun _ _ _ _ => rfl

/-- Items with different texts are told apart, once they are sorted, by nothing but what is among
them. -/
theorem sorted_on_eq_iff {α : Type} {key : α → String} {items others : List α}
    (first : (items.map key).Nodup) (second : (others.map key).Nodup) :
    sortedOn key items = sortedOn key others ↔ ∀ a, a ∈ items ↔ a ∈ others := by
  have perm : ∀ items, (sortedOn key items).Perm items := fun items => List.mergeSort_perm _ _
  have ascends : ∀ {items}, (items.map key).Nodup →
      (sortedOn key items).Pairwise fun a b => key a < key b := by
    intro items distinct
    rw [← List.pairwise_map, map_sorted_on]
    exact sorted_ascending distinct
  constructor
  · intro same a
    rw [← (perm items).mem_iff, same, (perm others).mem_iff]
  · intro same
    refine eq_of_ascending_on (ascends first) (ascends second) ?_
    intro a
    rw [(perm items).mem_iff, (perm others).mem_iff, same]

end ContractGraph.Text
