import ContractGraph.Json.Basic

/-!
# Values that a text gives back

A plain value is made of null, truth values, whole numbers and texts, and its objects have texts as
keys, none of them twice. It is readable within some limits on the digits of its numbers and on its
levels, and every plain value is readable within limits that are wide enough.
-/

namespace ContractGraph.Json

set_option autoImplicit false

inductive Plain : Json → Prop
  | null : Plain .null
  | bool (b : Bool) : Plain (.bool b)
  | int (i : Int) : Plain (.int i)
  | str (s : String) : Plain (.str s)
  | arr {items : List Json} (each : ∀ v ∈ items, Plain v) : Plain (.arr items)
  | obj {members : List (String × Json)} (distinct : (members.map (·.1)).Nodup)
      (each : ∀ f ∈ members, Plain f.2) : Plain (.obj (members.map fun f => (.str f.1, f.2)))

/-- Plain values of at most so many levels whose whole numbers have at most so many digits. -/
inductive Readable (digits : Nat) : Nat → Json → Prop
  | null {levels : Nat} : Readable digits levels .null
  | bool {levels : Nat} (b : Bool) : Readable digits levels (.bool b)
  | int {levels : Nat} {i : Int} (short : Binary64.decimalLength i.natAbs ≤ digits) :
      Readable digits levels (.int i)
  | str {levels : Nat} (s : String) : Readable digits levels (.str s)
  | arr {levels : Nat} {items : List Json} (each : ∀ v ∈ items, Readable digits levels v) :
      Readable digits (levels + 1) (.arr items)
  | obj {levels : Nat} {members : List (String × Json)} (distinct : (members.map (·.1)).Nodup)
      (each : ∀ f ∈ members, Readable digits levels f.2) :
      Readable digits (levels + 1) (.obj (members.map fun f => (.str f.1, f.2)))

theorem Readable.widen {digits wider levels deeper : Nat} {v : Json}
    (readable : Readable digits levels v) (wide : digits ≤ wider) (deep : levels ≤ deeper) :
    Readable wider deeper v := by
  induction readable generalizing deeper with
  | null => exact .null
  | bool b => exact .bool b
  | int short => exact .int (Nat.le_trans short wide)
  | str s => exact .str s
  | arr each ih =>
    obtain ⟨deeper, rfl⟩ : ∃ n, deeper = n + 1 := ⟨deeper - 1, by omega⟩
    exact .arr fun v member => ih v member (by omega)
  | obj distinct each ih =>
    obtain ⟨deeper, rfl⟩ : ∃ n, deeper = n + 1 := ⟨deeper - 1, by omega⟩
    exact .obj distinct fun f member => ih f member (by omega)

/-- Values that are readable each within its own limits are readable within common ones. -/
theorem readable_together {values : List Json}
    (each : ∀ v ∈ values, ∃ digits levels, Readable digits levels v) :
    ∃ digits levels, ∀ v ∈ values, Readable digits levels v := by
  induction values with
  | nil => exact ⟨0, 0, by simp⟩
  | cons v rest ih =>
    obtain ⟨digits, levels, first⟩ := each v List.mem_cons_self
    obtain ⟨wider, deeper, others⟩ := ih fun w member => each w (List.mem_cons_of_mem v member)
    refine ⟨max digits wider, max levels deeper, ?_⟩
    intro w member
    rcases List.mem_cons.mp member with rfl | member
    · exact first.widen (Nat.le_max_left _ _) (Nat.le_max_left _ _)
    · exact (others w member).widen (Nat.le_max_right _ _) (Nat.le_max_right _ _)

theorem Plain.readable {v : Json} (plain : Plain v) : ∃ digits levels, Readable digits levels v := by
  induction plain with
  | null => exact ⟨0, 0, .null⟩
  | bool b => exact ⟨0, 0, .bool b⟩
  | int i => exact ⟨_, 0, .int (Nat.le_refl _)⟩
  | str s => exact ⟨0, 0, .str s⟩
  | arr each ih =>
    obtain ⟨digits, levels, all⟩ := readable_together ih
    exact ⟨digits, levels + 1, .arr all⟩
  | @obj members distinct each ih =>
    have values : ∀ v ∈ members.map (·.2), ∃ digits levels, Readable digits levels v := by
      intro v member
      obtain ⟨f, here, rfl⟩ := List.mem_map.mp member
      exact ih f here
    obtain ⟨digits, levels, all⟩ := readable_together values
    exact ⟨digits, levels + 1, .obj distinct fun f member =>
      all f.2 (List.mem_map_of_mem member)⟩

end ContractGraph.Json
