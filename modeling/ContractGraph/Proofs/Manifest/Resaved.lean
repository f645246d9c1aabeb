import ContractGraph.Proofs.Manifest.Document

/-!
# Manifests that are read and written again

Reading a manifest is lenient: null, a text or an object may stand where an array belongs, members may
be missing, and a hash index that counts as nothing is none. What was read is settled after one pass.
The document that is written for it is read as the same manifest, so every later pass writes that
document again. Nothing is promised about the document that was read first.
-/

namespace ContractGraph

set_option autoImplicit false

namespace Manifest

/-- The document of what is read from a document. -/
def resave (d : Json) : Except ShapeFault Json := (ofDocument d).map toDocument

/-- A document after so many passes of reading and writing. -/
def resaved : Nat → Json → Except ShapeFault Json
  | 0, d => .ok d
  | passes + 1, d => resaved passes d >>= resave

variable {d : Json} {m : Manifest}

/-- A document holds no warnings. -/
theorem warnings_of_document (read : ofDocument d = .ok m) : m.warnings = [] := by
  rw [ofDocument] at read
  obtain ⟨fields, -, read⟩ := ok_of_bind read
  obtain ⟨components, -, read⟩ := ok_of_bind read
  obtain ⟨rootsValue, -, read⟩ := ok_of_bind read
  obtain ⟨roots, -, read⟩ := ok_of_bind read
  obtain ⟨leavesValue, -, read⟩ := ok_of_bind read
  obtain ⟨leaves, -, read⟩ := ok_of_bind read
  obtain ⟨hashIndex, -, read⟩ := ok_of_bind read
  cases read
  rfl

/-- What was read is read back whole from its own document. -/
theorem reread (read : ofDocument d = .ok m) : ofDocument m.toDocument = .ok m := by
  have plain : { m with warnings := [] } = m := by rw [← warnings_of_document read]
  rw [of_document_to_document, plain]

theorem resave_of_read (read : ofDocument d = .ok m) : resave d = .ok m.toDocument := by
  rw [resave, read]
  rfl

/-- From the first pass on every pass writes the document of what was read. -/
theorem resaved_of_read (read : ofDocument d = .ok m) (passes : Nat) :
    resaved (passes + 1) d = .ok m.toDocument := by
  induction passes with
  | zero => exact resave_of_read read
  | succ passes ih =>
    rw [resaved, ih]
    exact resave_of_read (reread read)

/-- Whatever a document holds, if it is read as a manifest then the document of that manifest is read
as the same manifest: the components in their order with every field, the roots, the leaves, the hash
index, the time and the version. So after any number of passes the same manifest is read, and every
pass after the first writes the same document. -/
theorem reading_settles (read : ofDocument d = .ok m) :
    ofDocument m.toDocument = .ok m ∧
      ∀ passes, resaved passes d >>= ofDocument = .ok m ∧
        resaved (passes + 1) d = .ok m.toDocument := by
  refine ⟨reread read, ?_⟩
  intro passes
  refine ⟨?_, resaved_of_read read passes⟩
  cases passes with
  | zero => exact read
  | succ passes =>
    rw [resaved_of_read read passes]
    exact reread read

/-- Texts and an object where arrays belong, nulls, an id that is no text, an unknown member, a hash
index without its parts, and no time and no version. -/
def careless : Json := .record [
  ("graph", .record [("roots", .str "ab"), ("leaves", .bool false)]),
  ("components", .record [
    ("b", .record [("usedBy", .record [("x", .null), ("y", .int 1)]), ("entryId", .int 5),
      ("description", .null), ("structureHash", .null), ("signatureHash", .str "")]),
    ("a", .record [("entryId", .str "a"), ("dependencies", .str "cd"), ("imports", .null),
      ("routes", .arr [.null, .arr []]), ("extra", .int 0)])]),
  ("hashIndex", .record [("other", .null)]),
  ("version", .null)]

theorem reading_settles_of_careless :
    ∃ m, ofDocument careless = .ok m ∧
      m.components.keys = ["b", "a"] ∧ m.roots = [.str "a", .str "b"] ∧ m.hashIndex = some {} ∧
      m.toDocument ≠ careless ∧ ofDocument m.toDocument = .ok m ∧
      ∀ passes, resaved passes careless >>= ofDocument = .ok m ∧
        resaved (passes + 1) careless = .ok m.toDocument := by
  have accepted : ((ofDocument careless).map fun m =>
      (m.components.keys, m.roots, m.hashIndex, decide (m.toDocument = careless))) =
        .ok (["b", "a"], [.str "a", .str "b"], some {}, false) := by decide +kernel
  obtain ⟨m, read, parts⟩ := ok_of_map accepted
  obtain ⟨keys, roots, index, other⟩ : _ ∧ _ ∧ _ ∧ _ := by simpa using parts
  obtain ⟨again, settled⟩ := reading_settles read
  exact ⟨m, read, keys, roots, index, other, again, settled⟩

end Manifest

end ContractGraph
