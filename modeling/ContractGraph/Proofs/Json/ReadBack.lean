import ContractGraph.Proofs.Json.Escaped
import ContractGraph.Proofs.Json.Numerals
import ContractGraph.Proofs.Json.Readable

/-!
# Texts are read back

In every style whose escapes stand for what was escaped and that adds nothing but layout, a value is
read back from its text. So two values with one text are equal, and indented text loses nothing.
-/

namespace ContractGraph

set_option autoImplicit false

namespace Fields

/-- Pairs whose keys are all different make up an object as they stand. -/
theorem insert_fresh {fields : Fields} {key : Key} {value : Json}
    (fresh : ∀ f ∈ fields, (f.1 == key) = false) :
    fields.insert key value = fields ++ [(key, value)] := by
  induction fields with
  | nil => rfl
  | cons f rest ih =>
    rcases f with ⟨k, v⟩
    have other : (k == key) = false := fresh (k, v) List.mem_cons_self
    rw [insert, other, ih fun g member => fresh g (List.mem_cons_of_mem _ member)]
    rfl

theorem of_pairs_distinct {pairs : List (Key × Json)}
    (distinct : pairs.Pairwise fun a b => (a.1 == b.1) = false) : ofPairs pairs = pairs := by
  have onto : ∀ fields : Fields,
      (fields ++ pairs).Pairwise (fun a b => (a.1 == b.1) = false) →
        pairs.foldl (fun fields p => fields.insert p.1 p.2) fields = fields ++ pairs := by
    clear distinct
    induction pairs with
    | nil =>
      intro fields _
      simp
    | cons p rest ih =>
      intro fields apart
      have fresh : ∀ f ∈ fields, (f.1 == p.1) = false := by
        intro f member
        exact (List.pairwise_append.mp apart).2.2 f member p List.mem_cons_self
      rw [List.foldl_cons, insert_fresh fresh, ih _ (by simpa using apart)]
      simp
  exact onto [] (by simpa using distinct)

end Fields

namespace Json

theorem keys_distinct {members : List (String × Json)} (distinct : (members.map (·.1)).Nodup) :
    (members.map fun f => ((Key.str f.1, f.2) : Key × Json)).Pairwise
      fun a b => (a.1 == b.1) = false := by
  rw [List.pairwise_map]
  refine (List.pairwise_map.mp distinct).imp ?_
  intro f g apart
  simpa using apart

/-- A style whose escapes are read as what they stand for and that puts nothing but layout around
commas, colons and line breaks. -/
structure Style.Legible (s : Style) : Prop where
  escape : ∀ c rest, rest ≠ [] → readStringBody (s.escape c ++ rest) = prepend c (readStringBody rest)
  comma : ∃ blank, s.comma = ',' :: blank ∧ ∀ c ∈ blank, isLayout c = true
  colon : ∃ blank, s.colon = ':' :: blank ∧ ∀ c ∈ blank, isLayout c = true
  line_break : ∀ level, ∀ c ∈ s.lineBreak level, isLayout c = true

theorem dense_legible : denseStyle.Legible where
  escape _ _ := escape_basic_read _
  comma := ⟨[], rfl, by simp⟩
  colon := ⟨[], rfl, by simp⟩
  line_break := by simp [denseStyle]

theorem indented_legible : indentedStyle.Legible where
  escape _ _ := escape_ascii_read _
  comma := ⟨[], rfl, by simp⟩
  colon := ⟨[' '], rfl, by simp [isLayout]⟩
  line_break := by
    intro level c member
    rcases List.mem_cons.mp member with rfl | blank
    · rfl
    · rw [List.eq_of_mem_replicate blank]
      rfl

variable {s : Style} {digits levels : Nat}

theorem Style.Legible.read_string (legible : s.Legible) (cs rest : List Char) :
    readString (cs.flatMap s.escape ++ '"' :: rest) = .ok (cs, rest) := by
  have body : readStringBody (cs.flatMap s.escape ++ '"' :: rest) = .ok (cs, rest) := by
    induction cs with
    | nil =>
      rw [readStringBody.eq_def]
      rfl
    | cons c cs ih =>
      rw [List.flatMap_cons, List.append_assoc, legible.escape c _ (by simp), ih]
      rfl
  rw [readString, body]

theorem skip_layout_append {blank rest : List Char} (layout : ∀ c ∈ blank, isLayout c = true) :
    skipLayout (blank ++ rest) = skipLayout rest := by
  rw [skipLayout, List.dropWhile_append_of_pos layout]
  rfl

theorem skip_layout_cons {c : Char} {rest : List Char} (visible : isLayout c = false) :
    skipLayout (c :: rest) = c :: rest := by
  rw [skipLayout, List.dropWhile_cons_of_neg]
  simp [visible]

theorem int_starts (i : Int) : ∃ c cs, (toString i).toList = c :: cs ∧
    (isDigit c = true ∨ c = '-' ∧ ∃ d ds, cs = d :: ds ∧ isDigit d = true) := by
  obtain ⟨d, ds, written⟩ :=
    List.exists_cons_of_ne_nil (Nat.toDigits_ne_nil (n := i.natAbs) (b := 10))
  have digit : isDigit d = true := is_digit_of_mem (written ▸ List.mem_cons_self)
  rw [int_text, written]
  split
  · exact ⟨'-', d :: ds, rfl, .inr ⟨rfl, d, ds, rfl, digit⟩⟩
  · exact ⟨d, ds, rfl, .inl digit⟩

theorem read_value_digit {steps : Nat} {c : Char} (cs : List Char) (digit : isDigit c = true) :
    readValue digits (steps + 1) levels (c :: cs) = readNumber digits (c :: cs) := by
  rw [readValue.eq_def]
  split
  · cases ‹steps + 1 = 0›
  · split <;> simp_all [isDigit]

theorem read_value_minus {steps : Nat} {d : Char} (ds : List Char) (digit : isDigit d = true) :
    readValue digits (steps + 1) levels ('-' :: d :: ds) = readNumber digits ('-' :: d :: ds) := by
  rw [readValue.eq_def]
  split
  · cases ‹steps + 1 = 0›
  · split <;> simp_all [isDigit]

theorem read_value_int {steps : Nat} {i : Int} (short : Binary64.decimalLength i.natAbs ≤ digits)
    {rest : List Char} (ends : Ends rest) :
    readValue digits (steps + 1) levels ((toString i).toList ++ rest) = .ok (.int i, rest) := by
  have number := read_number_int short ends
  obtain ⟨c, cs, written, starts⟩ := int_starts i
  rw [written] at number ⊢
  rcases starts with digit | ⟨rfl, d, ds, rfl, digit⟩
  · exact (read_value_digit _ digit).trans number
  · exact (read_value_minus _ digit).trans number

/-- No value starts with layout, with a bracket that closes an array or with a byte order mark. -/
def Opens (c : Char) : Prop := c ∉ [' ', '\t', '\n', '\r', ']', '\ufeff']

instance (c : Char) : Decidable (Opens c) := inferInstanceAs (Decidable (_ ∉ _))

theorem opens_of_digit {c : Char} (digit : isDigit c = true) : Opens c := by
  have none : [' ', '\t', '\n', '\r', ']', '\ufeff'].all (fun c => !isDigit c) = true := by decide
  intro member
  have other := List.all_eq_true.mp none c member
  simp [digit] at other

theorem visible_of_opens {c : Char} (opens : Opens c) : isLayout c = false := by
  simp only [Opens, List.mem_cons, not_or] at opens
  simp [isLayout, opens]

theorem write_starts (s : Style) {v : Json} (readable : Readable digits levels v) (level : Nat) :
    ∃ c cs, s.write level v = c :: cs ∧ Opens c := by
  cases readable with
  | null => exact ⟨_, _, rfl, by decide⟩
  | bool b => cases b <;> exact ⟨_, _, rfl, by decide⟩
  | @int _ i =>
    obtain ⟨c, cs, written, starts⟩ := int_starts i
    refine ⟨c, cs, written, ?_⟩
    rcases starts with digit | ⟨rfl, -⟩
    · exact opens_of_digit digit
    · decide
  | str t => exact ⟨_, _, rfl, by decide⟩
  | @arr _ items =>
    cases items with
    | nil => exact ⟨_, _, rfl, by decide⟩
    | cons v rest => exact ⟨_, _, rfl, by decide⟩
  | @obj _ members =>
    cases members with
    | nil => exact ⟨_, _, rfl, by decide⟩
    | cons v rest => exact ⟨_, _, rfl, by decide⟩

theorem skip_write (s : Style) {v : Json} (readable : Readable digits levels v) {level : Nat}
    {rest : List Char} : skipLayout (s.write level v ++ rest) = s.write level v ++ rest := by
  obtain ⟨c, cs, written, opens⟩ := write_starts s readable level
  rw [written]
  exact skip_layout_cons (visible_of_opens opens)

/-- A value whose text is read as the value, whatever ends it. -/
def Style.Restores (s : Style) (digits levels : Nat) (v : Json) : Prop :=
  ∀ steps level rest, 2 * (s.write level v).length ≤ steps → Ends rest →
    readValue digits steps levels (s.write level v ++ rest) = .ok (v, rest)

theorem Style.restores_of_succ {v : Json} (readable : Readable digits levels v)
    (step : ∀ steps level rest, 2 * (s.write level v).length ≤ steps + 1 → Ends rest →
      readValue digits (steps + 1) levels (s.write level v ++ rest) = .ok (v, rest)) :
    s.Restores digits levels v := by
  intro steps level rest enough ends
  obtain ⟨c, cs, written, -⟩ := write_starts s readable level
  have some : 0 < (s.write level v).length := by simp [written]
  obtain ⟨steps, rfl⟩ : ∃ n, steps = n + 1 := ⟨steps - 1, by omega⟩
  exact step steps level rest enough ends

theorem ends_of_layout {blank rest : List Char} (layout : ∀ c ∈ blank, isLayout c = true)
    (ends : Ends rest) : Ends (blank ++ rest) := by
  rcases blank with _ | ⟨b, blank⟩
  · exact ends
  · intro c head
    cases head
    have here := layout b List.mem_cons_self
    simp only [isLayout, Bool.or_eq_true, beq_iff_eq] at here
    rcases here with ((rfl | rfl) | rfl) | rfl <;> decide

namespace Style.Legible

/-- Items are read back when each of them is. -/
theorem read_items (legible : s.Legible) (level outer : Nat) {steps : Nat} {v : Json}
    {items : List Json} (rest : List Char) (readable : ∀ w ∈ v :: items, Readable digits levels w)
    (each : ∀ w ∈ v :: items, s.Restores digits levels w)
    (enough : 2 * (s.write level v ++ s.writeItems level items).length + 1 ≤ steps) :
    readItems digits steps levels
      (s.write level v ++ (s.writeItems level items ++ (s.lineBreak outer ++ ']' :: rest))) =
        .ok (v :: items, rest) := by
  induction items generalizing v steps with
  | nil =>
    obtain ⟨steps, rfl⟩ : ∃ n, steps = n + 1 := ⟨steps - 1, by omega⟩
    have ends : Ends (s.lineBreak outer ++ ']' :: rest) :=
      ends_of_layout (legible.line_break outer) (by simp [Ends])
    have first := each v List.mem_cons_self steps level (s.lineBreak outer ++ ']' :: rest)
      (by simp [Style.writeItems] at enough; omega) ends
    rw [Style.writeItems, List.nil_append, readItems, first]
    simp only [skip_layout_append (legible.line_break outer)]
    rw [skip_layout_cons (by decide)]
    rfl
  | cons w items ih =>
    obtain ⟨blank, comma, layout⟩ := legible.comma
    obtain ⟨steps, rfl⟩ : ∃ n, steps = n + 1 := ⟨steps - 1, by omega⟩
    simp only [Style.writeItems, comma, List.cons_append, List.append_assoc, List.length_append,
      List.length_cons] at enough ⊢
    have first := each v List.mem_cons_self steps level
      (',' :: (blank ++ (s.lineBreak level ++ (s.write level w ++
        (s.writeItems level items ++ (s.lineBreak outer ++ ']' :: rest)))))) (by omega)
      (by simp [Ends])
    have others := ih (fun x member => readable x (List.mem_cons_of_mem v member))
      (fun x member => each x (List.mem_cons_of_mem v member))
      (show 2 * (s.write level w ++ s.writeItems level items).length + 1 ≤ steps by
        simp only [List.length_append]
        omega)
    rw [readItems, first]
    simp only
    rw [skip_layout_cons (by decide)]
    simp only
    rw [skip_layout_append layout, skip_layout_append (legible.line_break level),
      skip_write s (readable w (by simp)), others]
    rfl

/-- One member is read with its name, and what follows it decides how reading goes on. -/
theorem read_member (legible : s.Legible) {level steps : Nat} {f : String × Json} {tail : List Char}
    (readable : Readable digits levels f.2) (restores : s.Restores digits levels f.2)
    (enough : 2 * (s.write level f.2).length ≤ steps) (ends : Ends tail) :
    readMembers digits (steps + 1) levels
      (s.string f.1.toList ++ (s.colon ++ (s.write level f.2 ++ tail))) =
        match skipLayout tail with
        | '}' :: rest => .ok ([(.str f.1, f.2)], rest)
        | ',' :: rest => (readMembers digits steps levels (skipLayout rest)).map
          fun p => ((.str f.1, f.2) :: p.1, p.2)
        | rest => .error (.malformed .expectedComma rest.length) := by
  obtain ⟨blank, colon, layout⟩ := legible.colon
  have value := restores steps level tail enough ends
  have name : String.ofList f.1.toList = f.1 := String.ofList_toList
  simp only [Style.string, List.cons_append, List.append_assoc, colon, List.nil_append]
  rw [readMembers]
  simp only [legible.read_string]
  rw [skip_layout_cons (by decide)]
  simp only
  rewrite [skip_layout_append layout, skip_write s readable, value, name]
  rfl

/-- Members are read back when their values are. -/
theorem read_members (legible : s.Legible) (level outer : Nat) {steps : Nat} {f : String × Json}
    {members : List (String × Json)} (rest : List Char)
    (readable : ∀ g ∈ f :: members, Readable digits levels g.2)
    (each : ∀ g ∈ f :: members, s.Restores digits levels g.2)
    (enough : 2 * (s.write level f.2 ++
      s.writeFields level (members.map fun g => (.str g.1, g.2))).length + 1 ≤ steps) :
    readMembers digits steps levels
      (s.string f.1.toList ++ (s.colon ++ (s.write level f.2 ++
        (s.writeFields level (members.map fun g => (.str g.1, g.2)) ++
          (s.lineBreak outer ++ '}' :: rest))))) =
        .ok ((f :: members).map fun g => (.str g.1, g.2), rest) := by
  induction members generalizing f steps with
  | nil =>
    obtain ⟨steps, rfl⟩ : ∃ n, steps = n + 1 := ⟨steps - 1, by omega⟩
    simp only [List.map_nil, Style.writeFields, List.append_nil, List.nil_append] at enough ⊢
    rw [legible.read_member (readable f List.mem_cons_self) (each f List.mem_cons_self) (by omega)
      (ends_of_layout (legible.line_break outer) (by simp [Ends])),
      skip_layout_append (legible.line_break outer), skip_layout_cons (by decide)]
    rfl
  | cons g members ih =>
    obtain ⟨steps, rfl⟩ : ∃ n, steps = n + 1 := ⟨steps - 1, by omega⟩
    obtain ⟨blank, comma, layout⟩ := legible.comma
    simp only [List.map_cons, Style.writeFields, comma, keyText, List.cons_append,
      List.append_assoc, List.length_append, List.length_cons] at enough ⊢
    have others := ih (fun x member => readable x (List.mem_cons_of_mem f member))
      (fun x member => each x (List.mem_cons_of_mem f member))
      (show 2 * (s.write level g.2 ++
          s.writeFields level (members.map fun g => (.str g.1, g.2))).length + 1 ≤ steps by
        simp only [List.length_append]
        omega)
    rw [legible.read_member (readable f List.mem_cons_self) (each f List.mem_cons_self) (by omega)
      (by simp [Ends]), skip_layout_cons (by decide)]
    simp only
    have next : ∀ tail, skipLayout (blank ++ (s.lineBreak level ++ (s.string g.1.toList ++ tail))) =
        s.string g.1.toList ++ tail := by
      intro tail
      rw [skip_layout_append layout, skip_layout_append (legible.line_break level)]
      exact skip_layout_cons (by decide)
    rw [next, others]
    rfl

theorem read_array (legible : s.Legible) {v : Json} {items : List Json}
    (readable : ∀ w ∈ v :: items, Readable digits levels w)
    (each : ∀ w ∈ v :: items, s.Restores digits levels w) {steps level : Nat} {rest : List Char}
    (enough : 2 * (s.write level (.arr (v :: items))).length ≤ steps + 1) :
    readValue digits (steps + 1) (levels + 1) (s.write level (.arr (v :: items)) ++ rest) =
      .ok (.arr (v :: items), rest) := by
  simp only [Style.write, List.length_cons, List.length_append] at enough
  have some : 2 * (s.write (level + 1) v ++ s.writeItems (level + 1) items).length + 1 ≤ steps := by
    simp only [List.length_append]
    omega
  have read := legible.read_items (level + 1) level rest readable each some
  simp only [Style.write, List.cons_append, List.append_assoc, List.nil_append]
  obtain ⟨c, cs, written, opens⟩ := write_starts s (readable v List.mem_cons_self) (level + 1)
  rw [readValue]
  simp only [skip_layout_append (legible.line_break (level + 1)),
    skip_write s (readable v List.mem_cons_self)]
  split
  · next tail closes =>
    rw [written, List.cons_append] at closes
    rw [(List.cons.inj closes).1] at opens
    exact absurd opens (by decide)
  · rw [read]
    rfl

theorem read_object (legible : s.Legible) {f : String × Json} {members : List (String × Json)}
    (distinct : ((f :: members).map (·.1)).Nodup)
    (readable : ∀ g ∈ f :: members, Readable digits levels g.2)
    (each : ∀ g ∈ f :: members, s.Restores digits levels g.2) {steps level : Nat} {rest : List Char}
    (enough : 2 * (s.write level (record (f :: members))).length ≤ steps + 1) :
    readValue digits (steps + 1) (levels + 1) (s.write level (record (f :: members)) ++ rest) =
      .ok (record (f :: members), rest) := by
  simp only [record, List.map_cons, Style.write, List.length_cons, List.length_append] at enough
  have some : 2 * (s.write (level + 1) f.2 ++
      s.writeFields (level + 1) (members.map fun g => (.str g.1, g.2))).length + 1 ≤ steps := by
    simp only [List.length_append]
    omega
  have read := legible.read_members (level + 1) level rest readable each some
  simp only [record, List.map_cons, Style.write, List.cons_append, List.append_assoc,
    List.nil_append, keyText]
  rw [readValue]
  have opens : ∀ tail, skipLayout (s.lineBreak (level + 1) ++ (s.string f.1.toList ++ tail)) =
      s.string f.1.toList ++ tail := by
    intro tail
    rw [skip_layout_append (legible.line_break (level + 1))]
    exact skip_layout_cons (by decide)
  simp only [opens]
  split
  · next tail closes =>
    exact absurd (List.cons.inj closes).1 (by decide)
  · rw [read]
    have whole := Fields.of_pairs_distinct (keys_distinct distinct)
    simp only [List.map_cons] at whole
    simp only [Except.map, List.map_cons, whole]

/-- The text of a value is read as the value. -/
theorem restores (legible : s.Legible) {v : Json} (readable : Readable digits levels v) :
    s.Restores digits levels v := by
  induction readable with
  | null =>
    apply Style.restores_of_succ .null
    intro steps level rest enough ends
    rfl
  | bool b =>
    apply Style.restores_of_succ (.bool b)
    intro steps level rest enough ends
    cases b <;> rfl
  | int short =>
    apply Style.restores_of_succ (.int short)
    intro steps level rest enough ends
    exact read_value_int short ends
  | str t =>
    apply Style.restores_of_succ (.str t)
    intro steps level rest enough ends
    simp only [Style.write, Style.string, List.cons_append, List.append_assoc, List.nil_append]
    rw [readValue]
    simp only [legible.read_string]
    simp [Except.map]
  | @arr levels items each ih =>
    apply Style.restores_of_succ (.arr each)
    intro steps level rest enough ends
    rcases items with _ | ⟨v, items⟩
    · rfl
    · exact legible.read_array each ih enough
  | @obj levels members distinct each ih =>
    apply Style.restores_of_succ (.obj distinct each)
    intro steps level rest enough ends
    rcases members with _ | ⟨f, members⟩
    · rfl
    · exact legible.read_object distinct each ih enough

end Style.Legible

theorem dense_injective {v w : Json} (first : Plain v) (second : Plain w)
    (same : v.dense = w.dense) : v = w := by
  have readable : ∀ u ∈ [v, w], ∃ digits levels, Readable digits levels u := by
    intro u member
    rcases List.mem_pair.mp member with rfl | rfl
    · exact first.readable
    · exact second.readable
  obtain ⟨digits, levels, all⟩ := readable_together readable
  have text : denseStyle.write 0 v = denseStyle.write 0 w := by
    have chars := congrArg String.toList same
    rwa [dense, dense, String.toList_ofList, String.toList_ofList] at chars
  have left := dense_legible.restores (all v (by simp)) _ 0 [] (Nat.le_refl _) (by simp [Ends])
  have right := dense_legible.restores (all w (by simp)) _ 0 [] (Nat.le_refl _) (by simp [Ends])
  rw [text, right] at left
  exact (Prod.mk.inj (Except.ok.inj left)).1.symm

theorem read_indented {v : Json} (readable : Readable maxDigits maxNesting v) :
    read v.indented = .ok v := by
  obtain ⟨c, cs, written, opens⟩ := write_starts indentedStyle readable 0
  have value := indented_legible.restores readable (2 * (c :: cs).length + 2) 0 []
    (by rw [written]; omega) (by simp [Ends])
  rw [List.append_nil, written] at value
  have start : skipLayout (c :: cs) = c :: cs := skip_layout_cons (visible_of_opens opens)
  have chars : readChars (c :: cs) = .ok v := by
    unfold readChars
    split
    · next tail marked =>
      rw [(List.cons.inj marked).1] at opens
      exact absurd opens (by decide)
    · rw [start, value]
      rfl
  rw [read, indented, String.toList_ofList, written, chars]
  rfl

end Json

end ContractGraph
