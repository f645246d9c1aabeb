import ContractGraph.Contract.Fingerprint
import ContractGraph.Proofs.Json.Records

/-!
# Fingerprints that agree

The three stable texts of a contract agree on what counts as a change: two contracts have one text of
their semantics exactly when they have one text of their structure and one of their signature. The
structure is the names of each kind, each as often as it is there, in any order; imports do not count.

A text of the semantics exists when the interface is one level short of the limit, as it stands one
level deeper there, and when the signature has a text; the structure holds no whole numbers.
-/

namespace ContractGraph

set_option autoImplicit false

open Json

/-- The same names of each kind, each as often. -/
structure Composition.Alike (c d : Composition) : Prop where
  variableNames : c.variableNames.Perm d.variableNames
  hooks : c.hooks.Perm d.hooks
  components : c.components.Perm d.components
  functions : c.functions.Perm d.functions

/-- The parts of the interface are made of plain values. -/
structure Interface.IsPlain (i : Interface) : Prop where
  props : Plain (.obj i.props)
  events : Plain (.obj i.events)
  state : ∀ fields ∈ i.state, Plain (.obj fields)

namespace Composition

variable {c d : Composition}

theorem structure_plain (c : Composition) : Plain c.structureValue := by
  refine .record (by simp) fun f member => ?_
  simp only [List.mem_cons, List.not_mem_nil, or_false] at member
  rcases member with rfl | rfl | rfl | rfl <;> exact .texts _

theorem structure_nesting (c : Composition) : c.structureValue.nesting = 2 := by
  simp [structureValue, record, nesting, fieldsNesting, texts_nesting]

theorem structure_stable_iff :
    c.structureValue.stabilize = d.structureValue.stabilize ↔ c.Alike d := by
  have names : ∀ {texts others : List String},
      (strings (Text.sorted texts)).stabilize = (strings (Text.sorted others)).stabilize ↔
        texts.Perm others := by
    intro texts others
    rw [stabilize_texts_eq_iff, (Text.sorted_perm texts).congr_left,
      (Text.sorted_perm others).congr_right]
  refine (stabilize_record_eq_iff ?_ ?_).trans ?_
  · rfl
  · simp
  simp only [List.map_cons, List.map_nil, List.cons.injEq, names, and_true]
  constructor
  · rintro ⟨variableNames, hooks, components, functions⟩
    exact ⟨variableNames, hooks, components, functions⟩
  · intro alike
    exact ⟨alike.variableNames, alike.hooks, alike.components, alike.functions⟩

theorem structure_digits (c : Composition) : c.structureValue.digits = 0 := by
  refine Nat.le_zero.mp (record_digits_le_iff.mpr fun f member => ?_)
  simp only [List.mem_cons, List.not_mem_nil, or_false] at member
  rcases member with rfl | rfl | rfl | rfl <;> exact texts_digits_le _

/-- Structures always have a text. -/
theorem structure_text (c : Composition) :
    c.structureText = .ok c.structureValue.stabilize.dense := by
  rw [structureText, c.structure_plain.stable_text, c.structure_nesting, c.structure_digits]
  rfl

theorem structure_texts_iff : c.structureText = d.structureText ↔ c.Alike d := by
  rw [structure_text, structure_text, Except.ok.injEq,
    c.structure_plain.dense_eq_iff d.structure_plain, structure_stable_iff]

end Composition

namespace Interface

variable {i : Interface}

theorem IsPlain.signature (plain : i.IsPlain) : Plain i.signatureValue := by
  refine .record (by simp) fun f member => ?_
  simp only [List.mem_cons, List.not_mem_nil, or_false] at member
  rcases member with rfl | rfl | rfl
  · exact plain.props
  · exact plain.events
  · cases state : i.state with
    | none => exact .null
    | some fields => exact plain.state fields state

end Interface

section Semantics

variable {c d : Composition} {i j : Interface}

theorem semantic_plain (plain : i.IsPlain) : Plain (semanticValue c i) := by
  refine .record (by simp) fun f member => ?_
  simp only [List.mem_cons, List.not_mem_nil, or_false] at member
  rcases member with rfl | rfl | rfl
  · exact .str _
  · exact c.structure_plain
  · exact plain.signature

/-- The interface stands one level deeper in the semantics. -/
theorem semantic_nesting (c : Composition) (i : Interface) :
    (semanticValue c i).nesting = i.signatureValue.nesting + 1 := by
  have deep : 2 ≤ i.signatureValue.nesting := by
    simp only [Interface.signatureValue, record, List.map_cons, List.map_nil, nesting,
      fieldsNesting]
    omega
  simp only [semanticValue, record, List.map_cons, List.map_nil, nesting, fieldsNesting,
    c.structure_nesting]
  omega

/-- The whole numbers of the semantics are those of the signature. -/
theorem semantic_digits_le_iff {n : Nat} :
    (semanticValue c i).digits ≤ n ↔ i.signatureValue.digits ≤ n := by
  rw [semanticValue, record_digits_le_iff]
  constructor
  · intro short
    exact short ("signature", i.signatureValue) (by simp)
  · intro short f member
    simp only [List.mem_cons, List.not_mem_nil, or_false] at member
    rcases member with rfl | rfl | rfl
    · exact Nat.zero_le n
    · rw [c.structure_digits]
      exact Nat.zero_le n
    · exact short

theorem semantic_text (plain : i.IsPlain) :
    semanticText c i =
      if i.signatureValue.nesting < maxStableNesting then
        if i.signatureValue.digits ≤ maxDigits then .ok (semanticValue c i).stabilize.dense
        else .error .tooManyDigits
      else .error .tooDeep := by
  rw [semanticText, (semantic_plain plain).stable_text, semantic_nesting]
  simp only [semantic_digits_le_iff]
  rfl

/-- Where the semantics have a text, the signature has one. -/
theorem signature_text_of_semantic (plain : i.IsPlain) {s : String}
    (text : semanticText c i = .ok s) :
    s = (semanticValue c i).stabilize.dense ∧
      i.signatureText = .ok i.signatureValue.stabilize.dense := by
  rw [semantic_text plain] at text
  rw [Interface.signatureText, plain.signature.stable_text]
  split at text
  case isFalse => cases text
  case isTrue fits =>
    split at text
    case isFalse => cases text
    case isTrue short =>
      cases text
      exact ⟨rfl, by rw [if_pos (Nat.le_of_lt fits), if_pos short]⟩

theorem semantic_stable_iff :
    (semanticValue c i).stabilize = (semanticValue d j).stabilize ↔
      c.structureValue.stabilize = d.structureValue.stabilize ∧
        i.signatureValue.stabilize = j.signatureValue.stabilize := by
  refine (stabilize_record_eq_iff ?_ ?_).trans ?_
  · rfl
  · simp
  · simp only [List.map_cons, List.map_nil, List.cons.injEq, true_and, and_true]

theorem semantic_dense_iff (first : i.IsPlain) (second : j.IsPlain) :
    (semanticValue c i).stabilize.dense = (semanticValue d j).stabilize.dense ↔
      c.structureValue.stabilize.dense = d.structureValue.stabilize.dense ∧
        i.signatureValue.stabilize.dense = j.signatureValue.stabilize.dense := by
  rw [(semantic_plain first).dense_eq_iff (semantic_plain second), semantic_stable_iff,
    c.structure_plain.dense_eq_iff d.structure_plain,
    first.signature.dense_eq_iff second.signature]

end Semantics

/-- Two texts of the semantics agree exactly when those of the structure and of the signature do, and
structures agree exactly when they are alike. The signature has a text unless it is nested too deep or
a whole number in it has too many digits, and the semantics have one too if there is a level to spare.
Without these limits the same holds of the dense texts of what was put in order. -/
theorem fingerprints_agree {c d : Composition} {i j : Interface} (first : i.IsPlain)
    (second : j.IsPlain) :
    (∀ s t, semanticText c i = .ok s → semanticText d j = .ok t →
        (s = t ↔ c.structureText = d.structureText ∧ i.signatureText = j.signatureText)) ∧
      (c.structureText = d.structureText ↔ c.Alike d) ∧
      c.structureText = .ok c.structureValue.stabilize.dense ∧
      (i.signatureText =
        if i.signatureValue.nesting ≤ maxStableNesting then
          if i.signatureValue.digits ≤ maxDigits then .ok i.signatureValue.stabilize.dense
          else .error .tooManyDigits
        else .error .tooDeep) ∧
      (semanticText c i =
        if i.signatureValue.nesting < maxStableNesting then
          if i.signatureValue.digits ≤ maxDigits then .ok (semanticValue c i).stabilize.dense
          else .error .tooManyDigits
        else .error .tooDeep) ∧
      ((semanticValue c i).stabilize.dense = (semanticValue d j).stabilize.dense ↔
        c.structureValue.stabilize.dense = d.structureValue.stabilize.dense ∧
          i.signatureValue.stabilize.dense = j.signatureValue.stabilize.dense) := by
  refine ⟨?_, Composition.structure_texts_iff, c.structure_text, first.signature.stable_text,
    semantic_text first, semantic_dense_iff first second⟩
  intro s t left right
  obtain ⟨rfl, signature⟩ := signature_text_of_semantic first left
  obtain ⟨rfl, signature'⟩ := signature_text_of_semantic second right
  rw [semantic_dense_iff first second, c.structure_text, d.structure_text, signature, signature',
    Except.ok.injEq, Except.ok.injEq]

/-- Names and members in one order, an import, and a null. -/
def extractedNames : Composition where
  variableNames := ["b", "a"]
  hooks := ["h"]
  imports := ["x"]

def extractedInterface : Interface where
  props := [(.str "k", .int 1), (.str "n", .null)]
  state := some []

/-- The names in another order, and one of them twice. -/
def repeatedNames : Composition where
  variableNames := ["a", "b", "a"]
  hooks := ["h"]

def reorderedInterface : Interface where
  props := [(.str "n", .null), (.str "k", .int 1)]
  state := some []

theorem fingerprints_agree_of_extracted :
    extractedInterface.IsPlain ∧ reorderedInterface.IsPlain ∧
      (∃ text, semanticText extractedNames extractedInterface = .ok text ∧
        semanticText { extractedNames with imports := [] } reorderedInterface = .ok text) ∧
      extractedNames.structureText ≠ repeatedNames.structureText := by
  have record : ∀ members : List (String × Json), (members.map (·.1)).Nodup →
      (∀ f ∈ members, f = ("k", .int 1) ∨ f = ("n", .null)) → Plain (record members) := by
    intro members distinct parts
    refine .record distinct fun f member => ?_
    rcases parts f member with rfl | rfl
    · exact .int 1
    · exact .null
  have first : extractedInterface.IsPlain :=
    ⟨record [("k", .int 1), ("n", .null)] (by decide) (by simp), record [] (by decide) (by simp),
      fun fields state => by cases state; exact record [] (by decide) (by simp)⟩
  have second : reorderedInterface.IsPlain :=
    ⟨record [("n", .null), ("k", .int 1)] (by decide) (by simp), record [] (by decide) (by simp),
      fun fields state => by cases state; exact record [] (by decide) (by simp)⟩
  have props : (Json.record [("k", .int 1), ("n", .null)]).stabilize =
      (Json.record [("n", .null), ("k", .int 1)]).stabilize :=
    stabilize_record_of_perm (by decide) (.swap _ _ [])
  have same : extractedInterface.signatureValue.stabilize =
      reorderedInterface.signatureValue.stabilize := by
    refine (stabilize_record_eq_iff ?_ ?_).mpr ?_
    · rfl
    · simp
    · exact congrArg (fun v => [v, (Json.obj []).stabilize, (Json.obj []).stabilize]) props
  obtain ⟨-, -, -, -, text, dense⟩ := fingerprints_agree
    (c := extractedNames) (d := { extractedNames with imports := [] }) first second
  obtain ⟨-, -, -, -, text', -⟩ := fingerprints_agree
    (c := { extractedNames with imports := [] }) (d := extractedNames) second first
  rw [if_pos (by decide +kernel), if_pos (by decide +kernel)] at text text'
  rw [← dense.mpr ⟨rfl, congrArg Json.dense same⟩] at text'
  refine ⟨first, second, ⟨_, text, text'⟩, ?_⟩
  intro equal
  have alike := (fingerprints_agree first first).2.1.mp equal
  exact absurd alike.variableNames.length_eq (by decide)

end ContractGraph
