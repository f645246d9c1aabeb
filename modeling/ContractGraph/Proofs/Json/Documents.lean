import ContractGraph.Json.Reader
import ContractGraph.Proofs.Outcome
import ContractGraph.Table

/-!
# Documents

Whatever is read from a text is a document: every key of every object in it is a text, and none
stands there twice, as a member that is named again takes the place of the first.
-/

namespace ContractGraph

set_option autoImplicit false

theorem Key.str_beq_comm (name : String) (key : Key) :
    (Key.str name == key) = (key == Key.str name) := by
  rw [Bool.eq_iff_iff, same_str_iff]
  cases key <;> simp [BEq.beq, same, point?, eq_comm]

theorem Fields.insert_eq_alter (key : Key) (v : Json) (fields : Fields) :
    Fields.insert key v fields = Table.alterEntries key (fun _ => v) v fields := by
  induction fields with
  | nil => rfl
  | cons f rest ih => rw [Fields.insert, Table.alterEntries, ih]

namespace Json

theorem items_are_documents_iff {items : List Json} :
    areDocuments items = true ↔ ∀ v ∈ items, v.IsDocument := by
  induction items with
  | nil => simp [areDocuments]
  | cons v rest ih => simp [areDocuments, ih, IsDocument]

/-- What a member of a document is. -/
def IsMember (key : Key) (v : Json) : Prop := (∃ name, key = .str name) ∧ v.IsDocument

theorem fields_are_documents_iff {fields : Fields} :
    fieldsAreDocuments fields = true ↔
      (∀ f ∈ fields, IsMember f.1 f.2) ∧ fields.Pairwise fun a b => (a.1 == b.1) = false := by
  induction fields with
  | nil => simp [fieldsAreDocuments]
  | cons f rest ih =>
    rcases f with ⟨key, v⟩
    rw [List.forall_mem_cons, List.pairwise_cons]
    cases key with
    | str name =>
      simp only [fieldsAreDocuments, Bool.and_eq_true, Bool.not_eq_true', List.any_eq_false,
        Bool.not_eq_true, ih, Key.str_beq_comm]
      simp only [IsMember, IsDocument, Key.str.injEq, exists_eq', true_and]
      tauto
    | _ => simp [fieldsAreDocuments, IsMember]

theorem of_pairs_documents {pairs : List (Key × Json)} (each : ∀ f ∈ pairs, IsMember f.1 f.2) :
    fieldsAreDocuments (Fields.ofPairs pairs) = true := by
  have onto : ∀ fields : Fields, fieldsAreDocuments fields = true →
      fieldsAreDocuments (pairs.foldl (fun fields p => Fields.insert p.1 p.2 fields) fields) = true := by
    induction pairs with
    | nil => exact fun _ documents => documents
    | cons p rest ih =>
      intro fields documents
      obtain ⟨members, apart⟩ := fields_are_documents_iff.mp documents
      have first : IsMember p.1 p.2 := each p List.mem_cons_self
      refine ih (fun f member => each f (List.mem_cons_of_mem p member)) _ ?_
      simp only [Fields.insert_eq_alter]
      exact fields_are_documents_iff.mpr
        ⟨Table.alter_entries_keep members (fun _ _ old => ⟨old.1, first.2⟩) first,
          Table.alter_entries_distinct p.1 _ p.2 apart⟩
  exact onto [] rfl

theorem read_number_document {digits : Nat} {cs rest : List Char} {v : Json}
    (done : readNumber digits cs = .ok (v, rest)) : v.IsDocument := by
  unfold readNumber at done
  simp only at done
  repeat' split at done
  all_goals first | contradiction | (cases done; rfl)

/-- What reading gives that may take so many steps. -/
structure ReadsDocuments (digits steps : Nat) : Prop where
  value : ∀ levels cs v rest, readValue digits steps levels cs = .ok (v, rest) → v.IsDocument
  items : ∀ levels cs vs rest, readItems digits steps levels cs = .ok (vs, rest) →
    ∀ v ∈ vs, v.IsDocument
  members : ∀ levels cs fs rest, readMembers digits steps levels cs = .ok (fs, rest) →
    ∀ f ∈ fs, IsMember f.1 f.2

theorem reads_documents (digits steps : Nat) : ReadsDocuments digits steps := by
  induction steps with
  | zero =>
    refine ⟨?_, ?_, ?_⟩
    · intro levels cs v rest done
      cases done
    · intro levels cs vs rest done
      cases done
    · intro levels cs fs rest done
      cases done
  | succ steps ih =>
    refine ⟨?_, ?_, ?_⟩
    · intro levels cs v rest done
      rw [readValue.eq_def] at done
      simp only at done
      split at done
      · obtain ⟨p, -, same⟩ := ok_of_map done
        cases same
        rfl
      · split at done
        · cases done
        · split at done
          · cases done
            rfl
          · obtain ⟨p, read, same⟩ := ok_of_map done
            cases same
            exact items_are_documents_iff.mpr (ih.items _ _ _ _ read)
      · split at done
        · cases done
        · split at done
          · cases done
            rfl
          · obtain ⟨p, read, same⟩ := ok_of_map done
            cases same
            exact of_pairs_documents (ih.members _ _ _ _ read)
      all_goals first | (cases done; rfl) | exact read_number_document done
    · intro levels cs vs rest done
      rw [readItems] at done
      split at done
      · cases done
      · next v tail first =>
        have document := ih.value _ _ _ _ first
        split at done
        · cases done
          exact List.forall_mem_singleton.mpr document
        · obtain ⟨p, read, same⟩ := ok_of_map done
          cases same
          exact List.forall_mem_cons.mpr ⟨document, ih.items _ _ _ _ read⟩
        · cases done
    · intro levels cs fs rest done
      rw [readMembers.eq_def] at done
      simp only at done
      split at done
      · split at done
        · cases done
        · next name tail _ =>
          split at done
          · split at done
            · cases done
            · next v tail first =>
              have document : IsMember (.str (.ofList name)) v :=
                ⟨⟨_, rfl⟩, ih.value _ _ _ _ first⟩
              split at done
              · cases done
                exact List.forall_mem_singleton.mpr document
              · obtain ⟨p, read, same⟩ := ok_of_map done
                cases same
                exact List.forall_mem_cons.mpr ⟨document, ih.members _ _ _ _ read⟩
              · cases done
          · cases done
      · cases done

/-- What is read from a text is a document. -/
theorem document_of_read {text : String} {v : Json} (done : read text = .ok v) : v.IsDocument := by
  have chars : readChars text.toList = .ok v := by
    rw [read] at done
    cases result : readChars text.toList with
    | error stop =>
      rw [result] at done
      cases done
    | ok w =>
      rw [result] at done
      exact congrArg Except.ok (Except.ok.inj done)
  rw [readChars.eq_def] at chars
  split at chars
  · cases chars
  · split at chars
    · cases chars
    · next w rest value =>
      split at chars
      · cases chars
        exact (reads_documents _ _).value _ _ _ _ value
      · cases chars

end Json

end ContractGraph
