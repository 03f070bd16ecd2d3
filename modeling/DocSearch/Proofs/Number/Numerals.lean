import DocSearch.Proofs.Number.Nearest
import DocSearch.Proofs.Number.Plain

/-!
# Numbers — plain numerals and their values

Which texts are plain numerals, with their parts (`Numeral.Spells`): a sign or none, and then digits,
digits and a point with or without others behind it, or a point and digits.  Reading takes just these,
in both directions (`Numeral.spells_of_ofPlain?`, `Numeral.ofPlain?_of_spells`), so a text is a numeral
in one way only.

The parts have a value (`Numeral.valueOf`), and the decimal and the integer that are made of a numeral
have the same (`Numeral.toRat_toDecimal`, `Numeral.wholeValue_eq`).
-/

namespace DocSearch.Numeral

/-! ### Spelling -/

/-- Digits of ASCII, at least one. -/
def Digits (s : Text) : Prop :=
  s ≠ [] ∧ ∀ c ∈ s, '0' ≤ c ∧ c ≤ '9'

/-- The signs, and whether they make a numeral negative. -/
inductive Sign : Text → Bool → Prop
  | none : Sign [] false
  | plus : Sign ['+'] false
  | minus : Sign ['-'] true

/-- Digits, digits and a point with or without others behind it, or a point and digits: the digits
in front of the point, and those behind it if there is one. -/
inductive Unsigned : Text → Text → Option Text → Prop
  | whole {w : Text} (hw : Digits w) : Unsigned w w none
  | point {w f : Text} (hw : Digits w) (hf : f = [] ∨ Digits f) :
      Unsigned (w ++ '.' :: f) w (some f)
  | bare {f : Text} (hf : Digits f) : Unsigned ('.' :: f) [] (some f)

/-- A text is a plain numeral with the given parts. -/
def Spells (raw : Text) (negative : Bool) (whole : Text) (fraction : Option Text) : Prop :=
  ∃ sign body, Sign sign negative ∧ Unsigned body whole fraction ∧ raw = sign ++ body

variable {raw s whole : Text} {negative : Bool} {fraction : Option Text} {n : Numeral}

theorem isDigit_iff {c : Char} : c.isDigit = true ↔ '0' ≤ c ∧ c ≤ '9' := by
  simp [Char.isDigit, Char.le_def]

theorem digits_iff : Digits s ↔ s ≠ [] ∧ ∀ c ∈ s, c.isDigit = true := by
  simp only [Digits, isDigit_iff]

theorem ofUnsigned?_of_unsigned (h : Unsigned s whole fraction) :
    ofUnsigned? negative s = some ⟨negative, whole, fraction, none⟩ := by
  cases h with
  | whole hw =>
    obtain ⟨hne, hdigit⟩ := digits_iff.1 hw
    exact ofUnsigned?_whole hdigit hne
  | @point w f hw hf =>
    obtain ⟨hne, hdigit⟩ := digits_iff.1 hw
    have hfraction : ∀ c ∈ f, c.isDigit = true := by
      rcases hf with rfl | hf
      · simp
      · exact (digits_iff.1 hf).2
    exact ofUnsigned?_point hdigit hfraction (by simp [hne])
  | bare hf =>
    obtain ⟨hne, hdigit⟩ := digits_iff.1 hf
    rw [← List.nil_append ('.' :: _)]
    exact ofUnsigned?_point (by simp) hdigit hne

theorem unsigned_of_ofUnsigned? (h : ofUnsigned? negative s = some n) :
    n.negative = negative ∧ n.exponent = none ∧ Unsigned s n.whole n.fraction := by
  have hsplit : s.takeWhile Char.isDigit ++ s.dropWhile Char.isDigit = s :=
    List.takeWhile_append_dropWhile
  have hwhole : ∀ c ∈ s.takeWhile Char.isDigit, c.isDigit = true :=
    List.all_eq_true.1 List.all_takeWhile
  simp only [ofUnsigned?] at h
  generalize s.takeWhile Char.isDigit = w at hsplit hwhole h
  split at h
  · next hrest =>
    rw [hrest, List.append_nil] at hsplit
    split at h
    · cases h
    · next hne =>
      cases h
      exact ⟨rfl, rfl, hsplit ▸ .whole (digits_iff.2 ⟨by simpa using hne, hwhole⟩)⟩
  · next c f hrest =>
    rw [hrest] at hsplit
    split at h
    · next hpoint =>
      obtain ⟨rfl, hf, hne⟩ := hpoint
      cases h
      refine ⟨rfl, rfl, ?_⟩
      rw [← hsplit]
      have hfraction : f = [] ∨ Digits f := by
        by_cases hnil : f = []
        · exact .inl hnil
        · exact .inr (digits_iff.2 ⟨hnil, List.all_eq_true.1 hf⟩)
      by_cases hnil : w = []
      · subst hnil
        exact .bare (hfraction.resolve_left (by simpa using hne))
      · exact .point (digits_iff.2 ⟨hnil, hwhole⟩) hfraction
    · cases h

/-- A numeral behind its sign begins with no other sign. -/
theorem Unsigned.head?_ne_sign (h : Unsigned s whole fraction) :
    s.head? ≠ some '-' ∧ s.head? ≠ some '+' := by
  cases h with
  | whole hw => simpa using Numeral.head?_ne_sign (digits_iff.1 hw).2 [] (by simp)
  | point hw _ => exact Numeral.head?_ne_sign (digits_iff.1 hw).2 _ (by simp)
  | bare _ => simp

/-- The sign that is split off is one. -/
theorem exists_sign (s : Text) : ∃ sign, s = sign ++ (splitSign s).2 ∧ Sign sign (splitSign s).1 := by
  unfold splitSign
  split
  · exact ⟨['-'], rfl, .minus⟩
  · exact ⟨['+'], rfl, .plus⟩
  · exact ⟨[], rfl, .none⟩

/-- What is read as a plain numeral is spelled as one, in the parts that are read. -/
theorem spells_of_ofPlain? (h : ofPlain? raw = some n) :
    n.exponent = none ∧ Spells raw n.negative n.whole n.fraction := by
  obtain ⟨sign, hraw, hsign⟩ := exists_sign raw
  obtain ⟨hnegative, hexponent, hbody⟩ :=
    unsigned_of_ofUnsigned? (show ofUnsigned? _ _ = some n from h)
  exact ⟨hexponent, sign, _, hnegative ▸ hsign, hbody, hraw⟩

theorem ofPlain?_of_spells (h : Spells raw negative whole fraction) :
    ofPlain? raw = some ⟨negative, whole, fraction, none⟩ := by
  obtain ⟨sign, body, hsign, hbody, rfl⟩ := h
  have hsplit : splitSign (sign ++ body) = (negative, body) := by
    cases hsign with
    | none => exact splitSign_of_head? hbody.head?_ne_sign
    | plus | minus => rfl
  rw [ofPlain?, hsplit]
  exact ofUnsigned?_of_unsigned hbody

/-- A numeral has a point if it has digits behind one, be it none. -/
theorem Spells.point_iff (h : Spells raw negative whole fraction) :
    '.' ∉ raw ↔ fraction = none := by
  obtain ⟨sign, body, hsign, hbody, rfl⟩ := h
  have hdigits : ∀ {s : Text}, Digits s → '.' ∉ s := fun hs hmem => absurd (hs.2 _ hmem) (by decide)
  have hnosign : '.' ∉ sign := by cases hsign <;> decide
  cases hbody with
  | whole hw => simp [hnosign, hdigits hw]
  | point hw hf => simp
  | bare hf => simp

/-- A numeral has no second point. -/
theorem Spells.count_point {f : Text} (h : Spells raw negative whole (some f)) :
    raw.count '.' = 1 := by
  obtain ⟨sign, body, hsign, hbody, rfl⟩ := h
  have hdigits : ∀ {s : Text}, Digits s → s.count '.' = 0 :=
    fun hs => List.count_eq_zero.2 fun hmem => absurd (hs.2 _ hmem) (by decide)
  have hnosign : sign.count '.' = 0 := by cases hsign <;> decide
  cases hbody with
  | point hw hf =>
    have hfraction : f.count '.' = 0 := by
      rcases hf with rfl | hf
      · rfl
      · exact hdigits hf
    simp [hnosign, hdigits hw, hfraction]
  | bare hf => simp [hnosign, hdigits hf]

/-! ### Value -/

/-- The value of a numeral by its parts. -/
def valueOf (negative : Bool) (whole : Text) (fraction : Option Text) : ℚ :=
  signOf negative * (Nat.ofDigitChars 10 whole 0
    + Nat.ofDigitChars 10 (fraction.getD []) 0 / 10 ^ (fraction.getD []).length)

theorem toRat_toDecimal (h : n.exponent = none) :
    n.toDecimal.toRat = valueOf n.negative n.whole n.fraction := by
  have hten : (10 : ℚ) ^ (n.fraction.getD []).length ≠ 0 := by positivity
  have hvalue : n.toDecimal.coefficient
      = 10 ^ (n.fraction.getD []).length * Nat.ofDigitChars 10 n.whole 0
        + Nat.ofDigitChars 10 (n.fraction.getD []) 0 := by
    rw [toDecimal, digits, Nat.ofDigitChars_append, Nat.ofDigitChars_eq_ofDigitChars_zero]
  have hplace : n.toDecimal.place = -((n.fraction.getD []).length : ℤ) := by
    rw [toDecimal, h, Option.getD_none, zero_sub]
  have hnone : (-((n.fraction.getD []).length : ℤ)).toNat = 0 := by omega
  rw [Decimal.toRat, Decimal.numerator, Decimal.denominator, hplace, neg_neg, Int.toNat_natCast,
    hnone, hvalue, Nat.pow_eq, Nat.pow_eq, pow_zero, Nat.mul_one]
  push_cast
  rw [add_div, mul_div_cancel_left₀ _ hten]
  rfl

theorem wholeValue_eq (n : Numeral) : (n.wholeValue : ℚ) = valueOf n.negative n.whole none := by
  rw [wholeValue, valueOf, signOf]
  split <;> simp

end DocSearch.Numeral
