import ContractGraph.Bundle.Pack
import ContractGraph.Proofs.Json.Records
import ContractGraph.Proofs.Outcome

/-!
# Bundle hashes as cache keys

The text that a bundle hash is taken of exists for nodes with different texts as keys unless the depth
has too many digits. It tells the depth, the schema version and the set of keys with their semantic
hashes, and nothing else: the order of the nodes does not count, nor does what else they hold.
-/

namespace ContractGraph.Bundle

set_option autoImplicit false

open Json

/-- A node document with a key and a semantic hash, which is empty where the document has none. -/
def NamesNode (v : Json) (node : String × String) : Prop :=
  ∃ fields, v = .obj fields ∧ Fields.get? fields "entryId" = some (.str node.1) ∧
    (Fields.get? fields "semanticHash").getD (.str "") = .str node.2

/-- What the bundle hash knows of a key with its semantic hash. -/
def HashedNode.named (node : String × String) : HashedNode := ⟨.str node.1, .str node.2⟩

theorem NamesNode.reading {v : Json} {node : String × String} (names : NamesNode v node) :
    HashedNode.ofValue v = .ok (.named node) := by
  obtain ⟨fields, rfl, key, hash⟩ := names
  simp only [HashedNode.ofValue, requiredMember, key, fieldsFor, bind, Except.bind, pure,
    Except.pure, hash]
  rfl

variable {nodes others : List (String × String)} {depth deeper : Int} {version newer : String}

/-- The value whose stable text is hashed. -/
def hashedValue (nodes : List (String × String)) (depth : Int) (version : String) : Json := .record [
  ("schemaVersion", .str version),
  ("depth", .int depth),
  ("nodes", .arr ((Text.sortedOn (·.1) nodes).map fun node => (HashedNode.named node).toValue))]

theorem hashed_text_named (nodes : List (String × String)) (depth : Int) (version : String) :
    hashedText (nodes.map .named) (.int depth) (.str version) =
      (hashedValue nodes depth version).stableText := by
  have texts : ∀ n ∈ nodes.map HashedNode.named, ∃ id, n.entryId = .str id := by
    intro n member
    obtain ⟨node, -, rfl⟩ := List.mem_map.mp member
    exact ⟨node.1, rfl⟩
  have sorted : ((nodes.map HashedNode.named).mergeSort fun a b => notAfter a.entryId b.entryId) =
      (Text.sortedOn (·.1) nodes).map .named :=
    (List.map_mergeSort fun a _ b _ => (not_after_texts a.1 b.1).symm).symm
  rw [hashedText, sort_on_texts texts]
  simp only [sorted, List.map_map]
  rfl

theorem node_plain (node : String × String) : Plain (HashedNode.named node).toValue := by
  refine .record (by simp) fun f member => ?_
  simp only [List.mem_cons, List.not_mem_nil, or_false] at member
  rcases member with rfl | rfl <;> exact .str _

theorem hashed_value_plain (nodes : List (String × String)) (depth : Int) (version : String) :
    Plain (hashedValue nodes depth version) := by
  refine .record (by simp) fun f member => ?_
  simp only [List.mem_cons, List.not_mem_nil, or_false] at member
  rcases member with rfl | rfl | rfl
  · exact .str _
  · exact .int _
  · refine .arr fun v member => ?_
    obtain ⟨node, -, rfl⟩ := List.mem_map.mp member
    exact node_plain node

theorem hashed_value_nesting (nodes : List (String × String)) (depth : Int) (version : String) :
    (hashedValue nodes depth version).nesting ≤ 3 := by
  have items : itemsNesting
      ((Text.sortedOn (·.1) nodes).map fun node => (HashedNode.named node).toValue) ≤ 1 := by
    refine items_nesting_le_iff.mpr fun v member => ?_
    obtain ⟨node, -, rfl⟩ := List.mem_map.mp member
    exact Nat.le_refl 1
  simp only [hashedValue, record, List.map_cons, List.map_nil, nesting, fieldsNesting]
  omega

/-- The depth is the only whole number. -/
theorem hashed_value_digits_le_iff {n : Nat} :
    (hashedValue nodes depth version).digits ≤ n ↔ Binary64.decimalLength depth.natAbs ≤ n := by
  have none : (arr ((Text.sortedOn (·.1) nodes).map fun node =>
      (HashedNode.named node).toValue)).digits ≤ n := by
    refine items_digits_le_iff.mpr fun v member => ?_
    obtain ⟨node, -, rfl⟩ := List.mem_map.mp member
    exact Nat.zero_le n
  rw [hashedValue, record_digits_le_iff]
  constructor
  · intro short
    exact short ("depth", .int depth) (by simp)
  · intro short f member
    simp only [List.mem_cons, List.not_mem_nil, or_false] at member
    rcases member with rfl | rfl | rfl
    · exact Nat.zero_le n
    · exact short
    · exact none

theorem hashed_value_text (nodes : List (String × String)) (depth : Int) (version : String) :
    (hashedValue nodes depth version).stableText =
      if Binary64.decimalLength depth.natAbs ≤ maxDigits
      then .ok (hashedValue nodes depth version).stabilize.dense else .error .tooManyDigits := by
  have fits : (hashedValue nodes depth version).nesting ≤ maxStableNesting :=
    Nat.le_trans (hashed_value_nesting nodes depth version) (by decide)
  rw [(hashed_value_plain nodes depth version).stable_text, if_pos fits]
  simp only [hashed_value_digits_le_iff]

theorem node_stable_iff {node other : String × String} :
    (HashedNode.named node).toValue.stabilize = (HashedNode.named other).toValue.stabilize ↔
      node = other := by
  refine (stabilize_record_eq_iff ?_ ?_).trans ?_
  · rfl
  · simp
  · simp [HashedNode.named, stabilize, Prod.ext_iff]

theorem nodes_stable_iff :
    (arr (nodes.map fun node => (HashedNode.named node).toValue)).stabilize =
        (arr (others.map fun node => (HashedNode.named node).toValue)).stabilize ↔
      nodes = others := by
  have objects : ∀ nodes : List (String × String),
      ∀ v ∈ nodes.map fun node => (HashedNode.named node).toValue, v.isString = false := by
    intro nodes v member
    obtain ⟨node, -, rfl⟩ := List.mem_map.mp member
    rfl
  rw [stabilize_objects (objects nodes), stabilize_objects (objects others), arr.injEq,
    List.map_map, List.map_map]
  exact List.map_inj_right fun _ _ same => node_stable_iff.mp same

theorem hashed_value_stable_iff :
    (hashedValue nodes depth version).stabilize = (hashedValue others deeper newer).stabilize ↔
      depth = deeper ∧ version = newer ∧
        Text.sortedOn (·.1) nodes = Text.sortedOn (·.1) others := by
  refine (stabilize_record_eq_iff ?_ ?_).trans ?_
  · rfl
  · simp
  · simp only [List.map_cons, List.map_nil, List.cons.injEq, nodes_stable_iff, and_true]
    simp only [stabilize, str.injEq, int.injEq]
    exact and_left_comm

theorem hashed_text_of_value {documents : List Json}
    (names : List.Forall₂ NamesNode documents nodes) (depth : Int) (version : String) :
    hashedTextOfValue (.arr documents) (.int depth) (.str version) =
      (hashedValue nodes depth version).stableText := by
  have read : documents.mapM HashedNode.ofValue = .ok (nodes.map .named) := by
    refine map_ok_iff.mpr (List.forall₂_map_right_iff.mpr (names.imp ?_))
    intro v node names
    exact names.reading
  rw [hashedTextOfValue, elements]
  simp only [bind, Except.bind, read, hashed_text_named]

/-- The text of a list of nodes with different keys exists unless the depth has too many digits, and two
of them are equal exactly when the depths, the versions and the sets of keys with their semantic hashes
are. Without that limit the same holds of the dense texts of what was put in order. -/
theorem cache_keys_equal_iff {documents listed : List Json}
    (first : List.Forall₂ NamesNode documents nodes) (second : List.Forall₂ NamesNode listed others)
    (distinct : (nodes.map (·.1)).Nodup) (apart : (others.map (·.1)).Nodup)
    (depth deeper : Int) (version newer : String) :
    (∀ s t, hashedTextOfValue (.arr documents) (.int depth) (.str version) = .ok s →
        hashedTextOfValue (.arr listed) (.int deeper) (.str newer) = .ok t →
        (s = t ↔ depth = deeper ∧ version = newer ∧ ∀ node, node ∈ nodes ↔ node ∈ others)) ∧
      (hashedTextOfValue (.arr documents) (.int depth) (.str version) =
        if Binary64.decimalLength depth.natAbs ≤ maxDigits
        then .ok (hashedValue nodes depth version).stabilize.dense else .error .tooManyDigits) ∧
      ((hashedValue nodes depth version).stabilize.dense =
          (hashedValue others deeper newer).stabilize.dense ↔
        depth = deeper ∧ version = newer ∧ ∀ node, node ∈ nodes ↔ node ∈ others) := by
  have plain := hashed_value_plain nodes depth version
  have plain' := hashed_value_plain others deeper newer
  have whole : (hashedValue nodes depth version).stabilize.dense =
      (hashedValue others deeper newer).stabilize.dense ↔
        depth = deeper ∧ version = newer ∧ ∀ node, node ∈ nodes ↔ node ∈ others := by
    rw [plain.dense_eq_iff plain', hashed_value_stable_iff, Text.sorted_on_eq_iff distinct apart]
  rw [hashed_text_of_value first, hashed_text_of_value second]
  refine ⟨?_, hashed_value_text nodes depth version, whole⟩
  intro s t left right
  cases plain.dense_of_stable_text left
  cases plain'.dense_of_stable_text right
  exact whole

/-- One node without a semantic hash. -/
def twoNodes : List Json := [
  .record [("entryId", .str "b.tsx")],
  .record [("entryId", .str "a.tsx"), ("semanticHash", .str "uif:1")]]

/-- The same nodes in another order, with an empty hash and another member. -/
def twoNodesListed : List Json := [
  .record [("semanticHash", .str "uif:1"), ("entryId", .str "a.tsx")],
  .record [("entryId", .str "b.tsx"), ("semanticHash", .str ""), ("contract", .null)]]

theorem cache_keys_equal_iff_of_two_nodes :
    List.Forall₂ NamesNode twoNodes [("b.tsx", ""), ("a.tsx", "uif:1")] ∧
      List.Forall₂ NamesNode twoNodesListed [("a.tsx", "uif:1"), ("b.tsx", "")] ∧
      ∃ text deeper, hashedTextOfValue (.arr twoNodes) (.int 1) (.str "0.1") = .ok text ∧
        hashedTextOfValue (.arr twoNodesListed) (.int 1) (.str "0.1") = .ok text ∧
        hashedTextOfValue (.arr twoNodesListed) (.int 2) (.str "0.1") = .ok deeper ∧
        text ≠ deeper := by
  have first : List.Forall₂ NamesNode twoNodes [("b.tsx", ""), ("a.tsx", "uif:1")] :=
    .cons ⟨_, rfl, rfl, rfl⟩ (.cons ⟨_, rfl, rfl, rfl⟩ .nil)
  have second : List.Forall₂ NamesNode twoNodesListed [("a.tsx", "uif:1"), ("b.tsx", "")] :=
    .cons ⟨_, rfl, rfl, rfl⟩ (.cons ⟨_, rfl, rfl, rfl⟩ .nil)
  have distinct : ["b.tsx", "a.tsx"].Nodup := by decide
  have apart : ["a.tsx", "b.tsx"].Nodup := by decide
  obtain ⟨-, text, same⟩ := cache_keys_equal_iff first second distinct apart 1 1 "0.1" "0.1"
  obtain ⟨differ, listed, -⟩ := cache_keys_equal_iff second second apart apart 1 2 "0.1" "0.1"
  obtain ⟨-, deeper, -⟩ := cache_keys_equal_iff second second apart apart 2 2 "0.1" "0.1"
  rw [if_pos (by decide)] at text listed deeper
  rw [same.mpr ⟨rfl, rfl, fun node => (List.Perm.swap _ _ []).mem_iff⟩] at text
  refine ⟨first, second, _, _, text, listed, deeper, ?_⟩
  intro equal
  exact absurd ((differ _ _ listed deeper).mp equal).1 (by decide)

end ContractGraph.Bundle
