import ContractGraph.Bundle.Validation

/-!
# Reports on joined documents

The report on bundles that are joined is the report on the first ones followed by the report on the
others, whose numbers go on behind the first. What a report says of one bundle is what it would say of
that bundle alone. So a bundle, however malformed, neither hides nor causes a finding in another one.
-/

namespace ContractGraph

set_option autoImplicit false

/-- The same error of a bundle that stands so many places further on. -/
def DocumentError.shift (places : Nat) : DocumentError → DocumentError
  | .notArray => .notArray
  | .inBundle number problem => .inBundle (number + places) problem

def DocumentError.number? : DocumentError → Option Nat
  | .notArray => none
  | .inBundle number _ => some number

def DocumentWarning.shift (places : Nat) (w : DocumentWarning) : DocumentWarning :=
  { w with number := w.number + places }

namespace ValidationReport

/-- The report on the same bundles that stand so many places further on. -/
def shift (places : Nat) (r : ValidationReport) : ValidationReport :=
  { r with errors := r.errors.map (.shift places), warnings := r.warnings.map (.shift places) }

/-- What a report says of the bundle that has a number. -/
def about (number : Nat) (r : ValidationReport) : List DocumentError × List DocumentWarning :=
  (r.errors.filter (·.number? = some number), r.warnings.filter (·.number = number))

variable (number places : Nat)

theorem empty_append (r : ValidationReport) : ValidationReport.append {} r = r := by
  simp [append]

theorem append_assoc (a b c : ValidationReport) :
    (a.append b).append c = a.append (b.append c) := by
  simp [append, Nat.add_assoc]

theorem append_shift (a b : ValidationReport) :
    (a.append b).shift places = (a.shift places).append (b.shift places) := by
  simp [append, shift]

theorem append_ok (a b : ValidationReport) :
    (a.append b).ok = true ↔ a.ok = true ∧ b.ok = true := by
  simp [append, ok]

theorem about_append (a b : ValidationReport) : (a.append b).about number =
    ((a.about number).1 ++ (b.about number).1, (a.about number).2 ++ (b.about number).2) := by
  simp [append, about]

theorem of_findings_shift (f : Bundle.Findings) :
    ofFindings (number + places) f = (ofFindings number f).shift places := by
  simp [ofFindings, shift, DocumentError.shift, DocumentWarning.shift]

/-- Findings of one bundle are about that bundle only. -/
theorem about_findings (asked : Nat) (f : Bundle.Findings) :
    (ofFindings number f).about asked =
      if asked = number then ((ofFindings number f).errors, (ofFindings number f).warnings)
      else ([], []) := by
  by_cases here : asked = number
  · have every : ∀ {α : Type} (items : List α), items.filter (fun _ => true) = items :=
      fun items => List.filter_eq_self.mpr fun _ _ => rfl
    simp [about, ofFindings, DocumentError.number?, List.filter_map, Function.comp_def, here, every]
  · simp [about, ofFindings, DocumentError.number?, List.filter_map, Function.comp_def, here,
      Ne.symm here]

theorem of_bundles_shift (bundles : List Json) :
    ofBundles (number + places) bundles = (ofBundles number bundles).shift places := by
  induction bundles generalizing number with
  | nil => rfl
  | cons bundle rest ih =>
    have behind : number + places + 1 = number + 1 + places := by omega
    rw [ofBundles, ofBundles, append_shift, of_findings_shift, behind, ih]

theorem of_bundles_append (xs ys : List Json) : ofBundles number (xs ++ ys) =
    (ofBundles number xs).append (ofBundles (number + xs.length) ys) := by
  induction xs generalizing number with
  | nil => exact (empty_append _).symm
  | cons x rest ih =>
    have behind : number + 1 + rest.length = number + (x :: rest).length := by
      rw [List.length_cons]
      omega
    rw [List.cons_append, ofBundles, ofBundles, ih, append_assoc, behind]

/-- Nothing is said of numbers that no bundle has. -/
theorem about_outside {asked : Nat} {bundles : List Json}
    (outside : asked < number ∨ number + bundles.length ≤ asked) :
    (ofBundles number bundles).about asked = ([], []) := by
  induction bundles generalizing number with
  | nil => rfl
  | cons bundle rest ih =>
    rw [List.length_cons] at outside
    have other : asked ≠ number := by omega
    have later : asked < number + 1 ∨ number + 1 + rest.length ≤ asked := by omega
    rw [ofBundles, about_append, about_findings, if_neg other, ih (number + 1) later]
    rfl

theorem of_bundles_single (bundle : Json) :
    ofBundles number [bundle] = ofFindings number (Bundle.check bundle) := by
  simp [ofBundles, append]

/-- What is said of one of several bundles is what is said of it alone. -/
theorem about_place {bundles : List Json} {place : Nat} {bundle : Json}
    (here : bundles[place]? = some bundle) : (ofBundles number bundles).about (number + place) =
      ((ofBundles (number + place) [bundle]).errors,
        (ofBundles (number + place) [bundle]).warnings) := by
  rw [of_bundles_single]
  induction bundles generalizing number place with
  | nil => cases here
  | cons first rest ih =>
    cases place with
    | zero =>
      cases here
      have later : (ofBundles (number + 1) rest).about number = ([], []) :=
        about_outside (number + 1) (.inl (Nat.lt_succ_self number))
      rw [Nat.add_zero, ofBundles, about_append, about_findings, if_pos rfl, later]
      simp
    | succ place =>
      have other : number + (place + 1) ≠ number := by omega
      have behind : number + (place + 1) = number + 1 + place := by omega
      rw [ofBundles, about_append, about_findings, if_neg other, behind, ih (number + 1) here]
      rfl

end ValidationReport

/-- The report on joined bundles has the errors of the first ones and then those of the others with
their numbers moved on, the warnings alike, and the counts of both together; it is good exactly when
both are. Of each bundle it says what it says of that bundle alone. -/
theorem reports_join (xs ys : List Json) :
    (validate (.arr (xs ++ ys))).errors =
        (validate (.arr xs)).errors ++ (validate (.arr ys)).errors.map (.shift xs.length) ∧
      (validate (.arr (xs ++ ys))).warnings =
        (validate (.arr xs)).warnings ++ (validate (.arr ys)).warnings.map (.shift xs.length) ∧
      (validate (.arr (xs ++ ys))).bundleCount =
        (validate (.arr xs)).bundleCount + (validate (.arr ys)).bundleCount ∧
      (validate (.arr (xs ++ ys))).nodeCount =
        (validate (.arr xs)).nodeCount + (validate (.arr ys)).nodeCount ∧
      (validate (.arr (xs ++ ys))).edgeCount =
        (validate (.arr xs)).edgeCount + (validate (.arr ys)).edgeCount ∧
      ((validate (.arr (xs ++ ys))).ok = true ↔
        (validate (.arr xs)).ok = true ∧ (validate (.arr ys)).ok = true) ∧
      ∀ place bundle, (xs ++ ys)[place]? = some bundle →
        (validate (.arr (xs ++ ys))).about (1 + place) =
          ((validate (.arr [bundle])).errors.map (.shift place),
            (validate (.arr [bundle])).warnings.map (.shift place)) := by
  have joined : validate (.arr (xs ++ ys)) =
      (validate (.arr xs)).append ((validate (.arr ys)).shift xs.length) := by
    rw [validate, ValidationReport.of_bundles_append, ValidationReport.of_bundles_shift]
    rfl
  have alone : ((validate (.arr ys)).shift xs.length).ok = (validate (.arr ys)).ok := by
    simp [ValidationReport.ok, ValidationReport.shift]
  have good : (validate (.arr (xs ++ ys))).ok = true ↔
      (validate (.arr xs)).ok = true ∧ (validate (.arr ys)).ok = true := by
    rw [joined, ValidationReport.append_ok, alone]
  refine ⟨congrArg ValidationReport.errors joined, congrArg ValidationReport.warnings joined,
    congrArg ValidationReport.bundleCount joined, congrArg ValidationReport.nodeCount joined,
    congrArg ValidationReport.edgeCount joined, good, ?_⟩
  intro place bundle here
  rw [validate, ValidationReport.about_place 1 here, ValidationReport.of_bundles_shift]
  rfl

end ContractGraph
