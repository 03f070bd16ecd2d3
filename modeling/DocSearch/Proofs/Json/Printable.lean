import DocSearch.Proofs.Json.RoundTrip

/-!
# JSON — texts on one line

The compact text of a value has no control character, whatever the strings and keys in it
(`printable_print`).  So it has no line feed, and stands on a line of its own.

Strings are where control characters could come from, and there each is escaped
(`printable_escape`).  All else in the text is digits, words and punctuation, for the compact style
puts no white space between the parts.
-/

namespace DocSearch

/-- The characters that numbers are written with. -/
def IsNumberChar (c : Char) : Prop :=
  c.isDigit = true ∨ c ∈ ['.', '-', '+', 'e']

theorem isNumberChar_of_ofPlain? {s : Text} {m : Numeral} (h : Numeral.ofPlain? s = some m) :
    ∀ c ∈ s, IsNumberChar c := by
  intro c hc
  rcases (Numeral.char_of_ofPlain? h).2 c hc with hdigit | rfl | rfl | rfl
  · exact .inl hdigit
  all_goals exact .inr (by decide)

theorem isNumberChar_scientific (d : Decimal) : ∀ c ∈ d.scientific, IsNumberChar c := by
  have hsign : ∀ c ∈ d.sign, IsNumberChar c := by
    cases hneg : d.negative <;> simp [Decimal.sign, hneg, IsNumberChar]
  have hdigits : ∀ c ∈ d.digits, IsNumberChar c := fun c hc => .inl (isDigit_of_mem_toDigits c hc)
  have hexponent : ∀ c ∈ Decimal.signedDigits d.exponent, IsNumberChar c := by
    refine List.forall_mem_cons.2 ⟨?_, fun c hc => .inl (isDigit_of_mem_toDigits c hc)⟩
    split <;> exact .inr (by decide)
  have hpoint : IsNumberChar '.' ∧ IsNumberChar 'e' := ⟨.inr (by decide), .inr (by decide)⟩
  unfold Decimal.scientific
  split
  · simp
  · next first hone =>
    rw [hone, List.forall_mem_singleton] at hdigits
    simp only [List.forall_mem_append, List.forall_mem_cons]
    exact ⟨hsign, hdigits, hpoint.2, hexponent⟩
  · next first others _ hmore =>
    rw [hmore, List.forall_mem_cons] at hdigits
    simp only [List.forall_mem_append, List.forall_mem_cons]
    exact ⟨⟨hsign, hdigits.1, hpoint.1, hdigits.2⟩, hpoint.2, hexponent⟩

theorem isNumberChar_json (n : Number) : ∀ c ∈ n.json, IsNumberChar c := by
  cases n with
  | int i =>
    obtain ⟨m, hm, -⟩ := i.ofPlain?_text
    exact isNumberChar_of_ofPlain? hm
  | float x =>
    obtain ⟨m, hm, -⟩ := (x.shortest .toEven).ofPlain?_positional
    simp only [Number.json]
    split
    · exact isNumberChar_of_ofPlain? hm
    · exact isNumberChar_scientific _

namespace Json

/-- No control character below U+0020. -/
def Printable (s : Text) : Prop :=
  ∀ c ∈ s, 0x20 ≤ c.toNat

variable {c : Char} {s t : Text}

@[simp] theorem printable_nil : Printable [] :=
  nofun

@[simp] theorem printable_cons : Printable (c :: s) ↔ 0x20 ≤ c.toNat ∧ Printable s :=
  List.forall_mem_cons

@[simp] theorem printable_append : Printable (s ++ t) ↔ Printable s ∧ Printable t :=
  List.forall_mem_append

theorem Printable.not_mem (h : Printable s) : '\n' ∉ s :=
  fun hmem => absurd (h _ hmem) (by decide)

theorem printable_json (n : Number) : Printable n.json := by
  intro c hc
  rcases isNumberChar_json n c hc with hdigit | hother
  · exact Nat.le_trans (by decide) (Char.isDigit_iff_toNat.1 hdigit).1
  · have hall : Printable ['.', '-', '+', 'e'] := by simp
    exact hall c hother

/-- What stands for a character in a string has no control character. -/
theorem printable_escape (c : Char) : Printable (escape c) := by
  rcases escape_cases c with ⟨letter, -, hc, hletter⟩ | ⟨hcontrol, hc⟩ | ⟨-, hplain, hc⟩
  · have hmem : letter ∈ ['"', '\\', '/', 'b', 'f', 'n', 'r', 't'] := by
      unfold shortEscape? at hletter
      grind
    have hall : Printable ['"', '\\', '/', 'b', 'f', 'n', 'r', 't'] := by simp
    simpa [hc] using hall letter hmem
  · have hdigit : ∀ n < 16, 0x20 ≤ (hexDigit n).toNat := by decide
    simp [hc, hdigit (c.toNat / 16) (by omega), hdigit (c.toNat % 16) (by omega)]
  · rw [hc]
    simpa using (not_or.1 hplain).2

theorem printable_quote (s : Text) : Printable (quote s) := by
  have hbody : Printable (s.flatMap escape) := by
    intro c hc
    obtain ⟨d, -, hd⟩ := List.mem_flatMap.1 hc
    exact printable_escape d c hd
  simp [quote, hbody]

@[simp] theorem Style.gap_compact (depth : Nat) : Style.compact.gap depth = [] := rfl

@[simp] theorem Style.colon_compact : Style.compact.colon = [':'] := rfl

mutual

theorem printable_write (depth : Nat) : (value : Json) → Printable (write .compact depth value)
  | .null | .bool true | .bool false | .array [] | .object [] => by
    simp [write]
  | .number n => by
    simpa only [write] using printable_json n
  | .text s => by
    simpa only [write] using printable_quote s
  | .array (item :: items) => by
    simp [write, printable_write, printable_writeItems]
  | .object (member :: members) => by
    simp [write, printable_writeMember, printable_writeMembers]

theorem printable_writeItems (depth : Nat) :
    (items : List Json) → Printable (writeItems .compact depth items)
  | [] => by simp [writeItems]
  | item :: items => by
    simp [writeItems, printable_write, printable_writeItems]

theorem printable_writeMember (depth : Nat) :
    (member : Text × Json) → Printable (writeMember .compact depth member)
  | (key, value) => by
    simp [writeMember, printable_quote, printable_write]

theorem printable_writeMembers (depth : Nat) :
    (members : List (Text × Json)) → Printable (writeMembers .compact depth members)
  | [] => by simp [writeMembers]
  | member :: members => by
    simp [writeMembers, printable_writeMember, printable_writeMembers]

end

/-- **What is printed of a value in the compact style stands on one line.** -/
theorem printable_print (value : Json) : Printable (value.print .compact) :=
  printable_write 0 value

end Json

end DocSearch
