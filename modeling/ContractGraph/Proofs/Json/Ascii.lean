import ContractGraph.Json.Printer
import ContractGraph.Proofs.Json.Numerals
import ContractGraph.Proofs.Json.Readable

/-!
# ASCII text

The styles that escape everything outside printable ASCII write nothing else but newlines, whatever
characters the texts of a value have.
-/

namespace ContractGraph.Json

set_option autoImplicit false

/-- Printable ASCII, or a newline. -/
def IsAscii (c : Char) : Prop := c = '\n' ∨ 0x20 ≤ c.toNat ∧ c.toNat < 0x7f

instance (c : Char) : Decidable (IsAscii c) := inferInstanceAs (Decidable (_ ∨ _))

theorem ascii_of_all (cs : List Char) (all : cs.all (fun c => decide (IsAscii c)) = true) :
    ∀ c ∈ cs, IsAscii c := by
  intro c member
  exact of_decide_eq_true (List.all_eq_true.mp all c member)

theorem hex_digits_ascii (width n : Nat) : ∀ c ∈ Text.hexDigits width n, IsAscii c := by
  have digit : ∀ n < 16, IsAscii (Text.hexDigit n) := by decide
  intro c member
  obtain ⟨d, small, rfl⟩ := Text.mem_hex_digits member
  exact digit d small

theorem unit_escape_ascii (n : Nat) : ∀ c ∈ '\\' :: 'u' :: Text.hexDigits 4 n, IsAscii c :=
  List.forall_mem_cons.mpr ⟨by decide, List.forall_mem_cons.mpr ⟨by decide, hex_digits_ascii 4 n⟩⟩

theorem escape_basic_ascii {c : Char} (low : c.toNat < 0x7f) : ∀ d ∈ escapeBasic c, IsAscii d := by
  unfold escapeBasic
  split
  · exact ascii_of_all _ (by decide)
  split
  · exact ascii_of_all _ (by decide)
  split
  · exact ascii_of_all _ (by decide)
  split
  · exact ascii_of_all _ (by decide)
  split
  · exact ascii_of_all _ (by decide)
  split
  · exact ascii_of_all _ (by decide)
  split
  · exact ascii_of_all _ (by decide)
  split
  · exact unit_escape_ascii c.toNat
  · next visible => exact List.forall_mem_singleton.mpr (.inr ⟨by omega, low⟩)

theorem escape_ascii_ascii (c : Char) : ∀ d ∈ escapeAscii c, IsAscii d := by
  unfold escapeAscii
  split
  · next low => exact escape_basic_ascii low
  split
  · exact unit_escape_ascii c.toNat
  · exact List.forall_mem_append.mpr ⟨unit_escape_ascii _, unit_escape_ascii _⟩

theorem int_ascii (i : Int) : ∀ c ∈ (toString i).toList, IsAscii c := by
  have digits : ∀ c ∈ Nat.toDigits 10 i.natAbs, IsAscii c := by
    intro c member
    have digit := is_digit_of_mem member
    simp only [isDigit, Bool.and_eq_true, decide_eq_true_eq, Char.le_def] at digit
    have low : '0'.toNat ≤ c.toNat := digit.1
    have high : c.toNat ≤ '9'.toNat := digit.2
    exact .inr ⟨Nat.le_trans (by decide) low, Nat.lt_of_le_of_lt high (by decide)⟩
  rw [int_text]
  split
  · exact List.forall_mem_cons.mpr ⟨by decide, digits⟩
  · exact digits

/-- A style whose escapes and separators are ASCII. -/
structure Style.Ascii (s : Style) : Prop where
  escape : ∀ c, ∀ d ∈ s.escape c, IsAscii d
  comma : ∀ c ∈ s.comma, IsAscii c
  colon : ∀ c ∈ s.colon, IsAscii c
  line_break : ∀ level, ∀ c ∈ s.lineBreak level, IsAscii c

theorem indented_ascii : indentedStyle.Ascii where
  escape := escape_ascii_ascii
  comma := ascii_of_all _ (by decide)
  colon := ascii_of_all _ (by decide)
  line_break level := by
    refine List.forall_mem_cons.mpr ⟨by decide, ?_⟩
    intro c blank
    rw [List.eq_of_mem_replicate blank]
    decide

namespace Style.Ascii

variable {s : Style} {digits levels : Nat}

theorem string (ascii : s.Ascii) (cs : List Char) : ∀ c ∈ s.string cs, IsAscii c := by
  refine List.forall_mem_cons.mpr ⟨by decide, List.forall_mem_append.mpr ⟨?_, ?_⟩⟩
  · intro d member
    obtain ⟨c, -, written⟩ := List.mem_flatMap.mp member
    exact ascii.escape c d written
  · exact ascii_of_all _ (by decide)

theorem items (ascii : s.Ascii) (level : Nat) {items : List Json}
    (each : ∀ v ∈ items, ∀ c ∈ s.write level v, IsAscii c) :
    ∀ c ∈ s.writeItems level items, IsAscii c := by
  induction items with
  | nil =>
    intro c member
    cases member
  | cons v rest ih =>
    have others := ih fun w member => each w (List.mem_cons_of_mem v member)
    simp only [writeItems, List.forall_mem_append]
    exact ⟨⟨⟨ascii.comma, ascii.line_break level⟩, each v List.mem_cons_self⟩, others⟩

theorem fields (ascii : s.Ascii) (level : Nat) {members : List (String × Json)}
    (each : ∀ f ∈ members, ∀ c ∈ s.write level f.2, IsAscii c) :
    ∀ c ∈ s.writeFields level (members.map fun f => (.str f.1, f.2)), IsAscii c := by
  induction members with
  | nil =>
    intro c member
    cases member
  | cons f rest ih =>
    have others := ih fun g member => each g (List.mem_cons_of_mem f member)
    simp only [List.map_cons, writeFields, List.forall_mem_append]
    exact ⟨⟨⟨⟨⟨ascii.comma, ascii.line_break level⟩, ascii.string _⟩, ascii.colon⟩,
      each f List.mem_cons_self⟩, others⟩

/-- Every character of a text is printable ASCII or a newline. -/
theorem write (ascii : s.Ascii) {v : Json} (readable : Readable digits levels v) (level : Nat) :
    ∀ c ∈ s.write level v, IsAscii c := by
  induction readable generalizing level with
  | null => exact ascii_of_all "null".toList (by decide)
  | bool b =>
    cases b with
    | false => exact ascii_of_all "false".toList (by decide)
    | true => exact ascii_of_all "true".toList (by decide)
  | int short => exact int_ascii _
  | str t => exact ascii.string _
  | @arr levels items each ih =>
    rcases items with _ | ⟨v, rest⟩
    · exact ascii_of_all ['[', ']'] (by decide)
    · have first := ih v List.mem_cons_self (level + 1)
      have others := ascii.items (level + 1) fun w member =>
        ih w (List.mem_cons_of_mem v member) (level + 1)
      simp only [Style.write, List.forall_mem_cons, List.forall_mem_append]
      exact ⟨by decide, ⟨⟨⟨ascii.line_break _, first⟩, others⟩, ascii.line_break _⟩, by decide,
        List.forall_mem_nil _⟩
  | @obj levels members distinct each ih =>
    rcases members with _ | ⟨f, rest⟩
    · exact ascii_of_all ['{', '}'] (by decide)
    · have first := ih f List.mem_cons_self (level + 1)
      have others := ascii.fields (level + 1) fun g member =>
        ih g (List.mem_cons_of_mem f member) (level + 1)
      simp only [List.map_cons, Style.write, List.forall_mem_cons, List.forall_mem_append]
      exact ⟨by decide, ⟨⟨⟨⟨⟨ascii.line_break _, ascii.string _⟩, ascii.colon⟩, first⟩, others⟩,
        ascii.line_break _⟩, by decide, List.forall_mem_nil _⟩

end Style.Ascii

end ContractGraph.Json
