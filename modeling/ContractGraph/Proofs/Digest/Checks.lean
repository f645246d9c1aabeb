import ContractGraph.Proofs.Bundle.CacheKey
import ContractGraph.Proofs.Digest.Form
import ContractGraph.SourceFile

/-!
# What the checks of hashes accept

A check accepts its prefix with lower-case hexadecimal digits behind it, in a number that it allows,
and besides only these texts with one newline at their end. No text passes both the check for
contracts and the one for bundles, and every hash that is computed here passes its own.
-/

namespace ContractGraph

set_option autoImplicit false

namespace Hash

/-- A prefix and behind it lower-case hexadecimal digits in a number that is allowed. -/
def HasDigits (pre : String) (allowed : Nat → Prop) (s : String) : Prop :=
  ∃ digits : List Char, s.toList = pre.toList ++ digits ∧
    (∀ c ∈ digits, c ∈ "0123456789abcdef".toList) ∧ allowed digits.length

variable {pre s : String} {allowed : Nat → Prop} {count : Nat → Bool}

theorem is_hash_digit_iff (c : Char) : isHashDigit c = true ↔ c ∈ "0123456789abcdef".toList := by
  refine Text.check_iff_mem 103 ?_ (by decide) (by decide) c
  intro c digit
  simp only [isHashDigit, Bool.or_eq_true, Bool.and_eq_true, decide_eq_true_eq, Char.le_def,
    UInt32.le_iff_toNat_le] at digit
  rcases digit with ⟨-, below⟩ | ⟨-, below⟩
  · exact Nat.lt_of_le_of_lt below (by decide)
  · exact Nat.lt_of_le_of_lt below (by decide)

theorem HasDigits.clear (form : HasDigits pre allowed s) (clear : '\n' ∉ pre.toList) :
    '\n' ∉ s.toList := by
  obtain ⟨digits, whole, each, -⟩ := form
  rw [whole, List.mem_append, not_or]
  exact ⟨clear, fun member => absurd (each _ member) (by decide)⟩

/-- A check looks at the text in front of a final newline. -/
theorem has_form_iff (counts : ∀ n, count n = true ↔ allowed n) : hasForm pre count s = true ↔
    HasDigits pre allowed (String.ofList (Text.splitFinalNewline s.toList).1) := by
  rw [hasForm, HasDigits, String.toList_ofList]
  cases found : Text.dropPrefix? pre.toList (Text.splitFinalNewline s.toList).1 with
  | none =>
    refine iff_of_false Bool.false_ne_true ?_
    rintro ⟨digits, whole, -⟩
    rw [(Text.drop_prefix_eq_some_iff _ _ digits).mpr whole] at found
    cases found
  | some digits =>
    have whole := (Text.drop_prefix_eq_some_iff _ _ _).mp found
    simp only [Bool.and_eq_true, List.all_eq_true, is_hash_digit_iff, counts]
    constructor
    · intro parts
      exact ⟨digits, whole, parts⟩
    · rintro ⟨others, same, parts⟩
      cases List.append_cancel_left (whole.symm.trans same)
      exact parts

/-- What a check for texts of a form says of a text: it accepts those of the form, and those with a
newline at their end as well. So the latter are the texts that it is wrong about. -/
structure Accepts (check : String → Bool) (Form : String → Prop) (s : String) : Prop where
  accepted : check s = true ↔ Form s ∨ ∃ t, Form t ∧ s = t ++ "\n"
  exact_iff : (check s = true ↔ Form s) ↔ ¬∃ t, Form t ∧ s = t ++ "\n"

theorem has_form_accepts (clear : '\n' ∉ pre.toList) (counts : ∀ n, count n = true ↔ allowed n)
    (s : String) : Accepts (hasForm pre count) (HasDigits pre allowed) s := by
  have whole : ∀ {t : String}, HasDigits pre allowed t → '\n' ∉ t.toList :=
    fun form => form.clear clear
  have accepted : hasForm pre count s = true ↔
      HasDigits pre allowed s ∨ ∃ t, HasDigits pre allowed t ∧ s = t ++ "\n" := by
    rw [has_form_iff counts]
    constructor
    · intro form
      rcases Text.split_final_newline_cases s.toList with none | one
      · rw [none, String.ofList_toList] at form
        exact .inl form
      · refine .inr ⟨_, form, String.toList_inj.mp ?_⟩
        rw [String.toList_append, String.toList_ofList]
        exact one.symm
    · rintro (form | ⟨t, form, rfl⟩)
      · rw [Text.split_final_newline_of_not_mem (whole form), String.ofList_toList]
        exact form
      · have ends : (t ++ "\n").toList = t.toList ++ ['\n'] := by simp
        rw [ends, Text.split_final_newline_append_one, String.ofList_toList]
        exact form
  refine ⟨accepted, ?_⟩
  rw [accepted]
  exact Text.or_newline_exact_iff (fun _ => whole) s

/-- A text that has a form starts with the prefix of the form. -/
theorem prefix_of_has_form (formed : hasForm pre count s = true) : pre.toList <+: s.toList := by
  obtain ⟨digits, whole, -⟩ := (has_form_iff fun _ => Iff.rfl).mp formed
  rw [String.toList_ofList] at whole
  refine .trans ⟨digits, whole.symm⟩ ?_
  exact ⟨_, Text.split_final_newline_append s.toList⟩

/-- The hashes of contracts that are computed here. -/
inductive OfContract : String → Prop
  | composition {c : Composition} {h : String} (done : c.structureHash = .ok h) : OfContract h
  | interface {i : Interface} {h : String} (done : i.signatureHash = .ok h) : OfContract h
  | semantics {c : Composition} {i : Interface} {h : String} (done : semanticHash c i = .ok h) :
    OfContract h
  | source (content : String) : OfContract (SourceFile.hash content)

/-- The hashes of bundles that are computed here. -/
inductive OfBundle : String → Prop
  | nodes {nodes : List Bundle.HashedNode} {depth version : Json} {h : String}
    (done : Bundle.hash nodes depth version = .ok h) : OfBundle h
  | document {nodes depth version : Json} {h : String}
    (done : Bundle.hashOfValue nodes depth version = .ok h) : OfBundle h

theorem OfContract.exists_text {h : String} (computed : OfContract h) :
    ∃ text, ofText contractPrefix text = h := by
  cases computed with
  | composition done | interface done | semantics done =>
    obtain ⟨text, -, made⟩ := ok_of_map done
    exact ⟨text, made⟩
  | source content => exact ⟨_, rfl⟩

theorem OfBundle.exists_text {h : String} (computed : OfBundle h) :
    ∃ text, ofText bundlePrefix text = h := by
  cases computed with
  | nodes done | document done =>
    obtain ⟨text, -, made⟩ := ok_of_map done
    exact ⟨text, made⟩

/-- The three checks accept their forms and these with a newline behind them, so each is right about a
text exactly when that is not a text of its form with a newline. No text passes both the check for
contracts and the one for bundles. Whatever hash is computed here passes its own. -/
theorem checks_accept_forms (s : String) :
    Accepts isFullContractHash (HasDigits "uif:" (· = 24)) s ∧
      Accepts isContractHash (HasDigits "uif:" (0 < ·)) s ∧
      Accepts isBundleHash (HasDigits "uifb:" (· = 24)) s ∧
      ¬(isContractHash s = true ∧ isBundleHash s = true) ∧
      (∀ h, OfContract h → isFullContractHash h = true ∧ isContractHash h = true) ∧
      ∀ h, OfBundle h → isBundleHash h = true := by
  have ofContract : '\n' ∉ contractPrefix.toList := by decide
  have ofBundle : '\n' ∉ bundlePrefix.toList := by decide
  have full : ∀ n, (n == digestLength) = true ↔ n = 24 := fun _ => beq_iff_eq
  have some : ∀ n, (n != 0) = true ↔ 0 < n := fun _ => bne_iff_ne.trans Nat.pos_iff_ne_zero.symm
  refine ⟨has_form_accepts ofContract full s, has_form_accepts ofContract some s,
    has_form_accepts ofBundle full s, ?_, ?_, ?_⟩
  · rintro ⟨contract, bundle⟩
    have nested := List.prefix_of_prefix_length_le (prefix_of_has_form contract)
      (prefix_of_has_form bundle) (by decide)
    exact absurd nested (by decide)
  · intro h computed
    obtain ⟨text, rfl⟩ := computed.exists_text
    exact ⟨of_text_has_form ofContract rfl text, of_text_has_form ofContract rfl text⟩
  · intro h computed
    obtain ⟨text, rfl⟩ := computed.exists_text
    exact of_text_has_form ofBundle rfl text

/-- The hashes of a file without content and of a bundle with one node pass, and a newline behind the
latter does no harm. -/
theorem checks_accept_forms_of_one_node :
    OfContract (SourceFile.hash "") ∧ isFullContractHash (SourceFile.hash "") = true ∧
      ∃ h, OfBundle h ∧ isBundleHash h = true ∧
        (isBundleHash (h ++ "\n") = true ↔ HasDigits "uifb:" (· = 24) (h ++ "\n") ∨
          ∃ t, HasDigits "uifb:" (· = 24) t ∧ h ++ "\n" = t ++ "\n") := by
  have source : OfContract (SourceFile.hash "") := .source ""
  have node : Bundle.NamesNode (.record [("entryId", .str "a.ts"), ("contract", .null)])
      ("a.ts", "") := ⟨_, rfl, rfl, rfl⟩
  obtain ⟨h, done⟩ : ∃ h, Bundle.hashOfValue
      (.arr [.record [("entryId", .str "a.ts"), ("contract", .null)]]) (.int 1) (.str "0.1") = .ok h := by
    rw [Bundle.hashOfValue, Bundle.hashed_text_of_value (.cons node .nil) 1 "0.1",
      Bundle.hashed_value_text, if_pos (by decide)]
    exact ⟨_, rfl⟩
  obtain ⟨-, -, accepts, -, contracts, bundles⟩ := checks_accept_forms (h ++ "\n")
  exact ⟨source, (contracts _ source).1, h, .document done, bundles h (.document done),
    accepts.accepted⟩

/-- A newline behind a whole hash goes unnoticed. -/
theorem newline_accepted :
    isFullContractHash "uif:000000000000000000000000\n" = true ∧
      ¬HasDigits "uif:" (· = 24) "uif:000000000000000000000000\n" := by
  refine ⟨by decide, ?_⟩
  intro form
  exact absurd (form.clear (by decide)) (by decide)

end Hash

end ContractGraph
