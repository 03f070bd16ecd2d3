import DocSearch.Number.Basic
import DocSearch.Proofs.Number.Rounding

/-!
# Numbers — plain texts

A plain numeral is a sign, digits and possibly a point; it has no other character
(`Numeral.char_of_ofPlain?`).

What is written of a number in a query is such a numeral, and stands for the number.  An integer
has no point, and its numeral the integer's value (`Integer64.ofPlain?_text`).  A positional
decimal has a point, and its numeral reads as the same double as the decimal: the layout moves
zeros from the place to the digits, which changes the decimal but not its value
(`Decimal.ofPlain?_positional`).
-/

namespace DocSearch

namespace Numeral

variable {negative : Bool} {whole fraction s : Text} {n : Numeral}

/-! ### The characters of a plain numeral -/

theorem char_of_ofUnsigned? (h : ofUnsigned? negative s = some n) :
    s ≠ [] ∧ ∀ c ∈ s, c.isDigit = true ∨ c = '.' := by
  have hsplit : s = s.takeWhile Char.isDigit ++ s.dropWhile Char.isDigit :=
    List.takeWhile_append_dropWhile.symm
  have hwhole : ∀ c ∈ s.takeWhile Char.isDigit, c.isDigit = true :=
    List.all_eq_true.1 List.all_takeWhile
  simp only [ofUnsigned?] at h
  split at h
  · next hrest =>
    rw [hrest, List.append_nil] at hsplit
    split at h
    · cases h
    · next hne =>
      rw [hsplit]
      exact ⟨by simpa using hne, fun c hc => .inl (hwhole c hc)⟩
  · next d fraction hrest =>
    split at h
    · next hpoint =>
      obtain ⟨rfl, hfraction, -⟩ := hpoint
      rw [hsplit, hrest]
      refine ⟨by simp, fun c hc => ?_⟩
      rcases List.mem_append.1 hc with hc | hc
      · exact .inl (hwhole c hc)
      · rcases List.mem_cons.1 hc with rfl | hc
        · exact .inr rfl
        · exact .inl (List.all_eq_true.1 hfraction c hc)
    · cases h

theorem splitSign_of_head? (hhead : s.head? ≠ some '-' ∧ s.head? ≠ some '+') :
    splitSign s = (false, s) := by
  unfold splitSign
  split
  · simp at hhead
  · simp at hhead
  · rfl

/-- A sign is dropped and nothing else, whatever stands behind the character that follows it. -/
theorem eq_append_splitSign (s : Text) :
    ∃ sign, s = sign ++ (splitSign s).2 ∧ (∀ c ∈ sign, c = '-' ∨ c = '+')
      ∧ ∀ t : Text, t.head? = (splitSign s).2.head? →
        splitSign (sign ++ t) = ((splitSign s).1, t) := by
  by_cases hminus : s.head? = some '-'
  · obtain ⟨t, rfl⟩ := List.head?_eq_some_iff.1 hminus
    exact ⟨['-'], rfl, by simp, fun _ _ => rfl⟩
  by_cases hplus : s.head? = some '+'
  · obtain ⟨t, rfl⟩ := List.head?_eq_some_iff.1 hplus
    exact ⟨['+'], rfl, by simp, fun _ _ => rfl⟩
  rw [splitSign_of_head? ⟨hminus, hplus⟩]
  refine ⟨[], rfl, by simp, fun t ht => ?_⟩
  exact splitSign_of_head? ⟨ht ▸ hminus, ht ▸ hplus⟩

/-- A plain numeral is not empty, and is made of digits, points and signs. -/
theorem char_of_ofPlain? (h : ofPlain? s = some n) :
    s ≠ [] ∧ ∀ c ∈ s, c.isDigit = true ∨ c = '.' ∨ c = '-' ∨ c = '+' := by
  obtain ⟨sign, hs, hsign, -⟩ := eq_append_splitSign s
  obtain ⟨hne, hchar⟩ := char_of_ofUnsigned? (show ofUnsigned? _ (splitSign s).2 = some n from h)
  rw [hs]
  refine ⟨by simp [hne], fun c hc => ?_⟩
  rcases List.mem_append.1 hc with hc | hc
  · exact .inr (.inr (hsign c hc))
  · exact (hchar c hc).imp_right .inl

/-! ### Reading digits -/

/-- Behind a minus sign or none, a numeral is read without its sign. -/
theorem ofPlain?_append (hhead : s.head? ≠ some '-' ∧ s.head? ≠ some '+') :
    ofPlain? ((if negative then ['-'] else []) ++ s) = ofUnsigned? negative s := by
  cases negative with
  | true => rfl
  | false =>
    rw [if_neg Bool.false_ne_true, List.nil_append, ofPlain?, splitSign_of_head? hhead]

theorem takeWhile_isDigit {t : Text} (hwhole : ∀ c ∈ whole, c.isDigit = true)
    (ht : t.head?.all (!Char.isDigit ·)) :
    (whole ++ t).takeWhile Char.isDigit = whole ∧ (whole ++ t).dropWhile Char.isDigit = t := by
  rw [List.takeWhile_append_of_pos hwhole, List.dropWhile_append_of_pos hwhole]
  cases t with
  | nil => simp
  | cons c t =>
    have hc : c.isDigit = false := by simpa using ht
    simp [hc]

/-- The digits in front of a text are those in front of any text that goes on as it does. -/
theorem takeWhile_isDigit_append {t : Text} (ht : t.head? = (s.dropWhile Char.isDigit).head?) :
    (s.takeWhile Char.isDigit ++ t).takeWhile Char.isDigit = s.takeWhile Char.isDigit
      ∧ (s.takeWhile Char.isDigit ++ t).dropWhile Char.isDigit = t := by
  refine takeWhile_isDigit (List.all_eq_true.1 List.all_takeWhile) ?_
  have hstop := List.head?_dropWhile_not Char.isDigit s
  rw [ht]
  cases hhead : (s.dropWhile Char.isDigit).head? with
  | none => rfl
  | some c =>
    rw [hhead] at hstop
    simpa using hstop

theorem ofUnsigned?_whole (hwhole : ∀ c ∈ whole, c.isDigit = true) (hne : whole ≠ []) :
    ofUnsigned? negative whole = some ⟨negative, whole, none, none⟩ := by
  obtain ⟨htake, hdrop⟩ := takeWhile_isDigit (t := []) hwhole rfl
  rw [List.append_nil] at htake hdrop
  simp [ofUnsigned?, htake, hdrop, hne]

theorem ofUnsigned?_point (hwhole : ∀ c ∈ whole, c.isDigit = true)
    (hfraction : ∀ c ∈ fraction, c.isDigit = true) (hne : whole ++ fraction ≠ []) :
    ofUnsigned? negative (whole ++ '.' :: fraction)
      = some ⟨negative, whole, some fraction, none⟩ := by
  obtain ⟨htake, hdrop⟩ := takeWhile_isDigit (t := '.' :: fraction) hwhole rfl
  simp only [ofUnsigned?, htake, hdrop, true_and]
  exact if_pos ⟨List.all_eq_true.2 hfraction, by simpa using hne⟩

/-- A digit is no sign, and neither is a point. -/
theorem head?_ne_sign (hwhole : ∀ c ∈ whole, c.isDigit = true) (t : Text)
    (ht : t.head? ≠ some '-' ∧ t.head? ≠ some '+') :
    (whole ++ t).head? ≠ some '-' ∧ (whole ++ t).head? ≠ some '+' := by
  cases whole with
  | nil => exact ht
  | cons c whole =>
    have hc : c.isDigit = true := hwhole c List.mem_cons_self
    constructor <;>
    · rintro h
      obtain rfl : c = _ := by simpa using h
      exact absurd hc (by decide)

end Numeral

/-! ### Numbers -/

theorem isDigit_of_mem_toDigits {k : Nat} : ∀ c ∈ Nat.toDigits 10 k, c.isDigit = true :=
  fun _ hc => Nat.isDigit_of_mem_toDigits (by decide) (by decide) hc

/-- No number but zero has a zero in front. -/
theorem eq_zero_of_head?_toDigits {k : Nat} (h : (Nat.toDigits 10 k).head? = some '0') : k = 0 := by
  induction k using Nat.strongRecOn with
  | _ k ih =>
    rcases Nat.lt_or_ge k 10 with hlt | hge
    · have hdigit : ∀ k < 10, Nat.digitChar k = '0' → k = 0 := by decide
      rw [Nat.toDigits_of_lt_base hlt] at h
      exact hdigit k hlt (by simpa using h)
    · have hne : (Nat.toDigits 10 (k / 10)).head?.isSome = true := by simp
      rw [Nat.toDigits_of_base_le (by decide) hge, List.head?_append, Option.or_of_isSome hne] at h
      have := ih (k / 10) (by omega) h
      omega

/-- An integer's text is a numeral of its value, without a point. -/
theorem Integer64.ofPlain?_text (i : Integer64) :
    ∃ n, Numeral.ofPlain? i.text = some n ∧ n.isWhole = true ∧ n.wholeValue = i.value := by
  refine ⟨⟨i.value < 0, Nat.toDigits 10 i.value.natAbs, none, none⟩, ?_, rfl, ?_⟩
  · have hhead := Numeral.head?_ne_sign (isDigit_of_mem_toDigits (k := i.value.natAbs)) []
      (by simp)
    rw [List.append_nil] at hhead
    rw [← Numeral.ofUnsigned?_whole isDigit_of_mem_toDigits Nat.toDigits_ne_nil,
      ← Numeral.ofPlain?_append hhead]
    simp [Integer64.text]
  · simp only [Numeral.wholeValue, Nat.ofDigitChars_ten_toDigits, decide_eq_true_eq]
    split <;> omega

/-- A numeral without a point reads as the double nearest to its value.  Zero is left out, which has a
double of either sign. -/
theorem Numeral.nearest?_of_isWhole {n : Numeral} {i : Integer64} (hwhole : n.isWhole = true)
    (hvalue : n.wholeValue = i.value) (hne : i.value ≠ 0) :
    n.toDecimal.nearest? = some (Number.int i).toBinary64 := by
  obtain ⟨negative, whole, fraction, exponent⟩ := n
  obtain ⟨rfl, rfl⟩ : fraction = none ∧ exponent = none := by simpa [isWhole] using hwhole
  simp only [wholeValue] at hvalue
  rw [Decimal.nearest?_eq_some_iff]
  constructor
  · show negative = decide (i.value < 0)
    cases negative <;> simp at hvalue ⊢ <;> omega
  · have habs : Nat.ofDigitChars 10 whole 0 = i.value.natAbs := by
      split at hvalue <;> omega
    simp [Decimal.numerator, Decimal.denominator, toDecimal, digits, habs, Number.toBinary64,
      Binary64.ofInt]

namespace Decimal

/-- The two sides of the point in a positional layout: digits which make up the coefficient followed
by zeros.  A zero stands in front of other digits only if it is the coefficient. -/
structure Sides (d : Decimal) (whole fraction : Text) : Prop where
  whole_digit : ∀ c ∈ whole, c.isDigit = true
  fraction_digit : ∀ c ∈ fraction, c.isDigit = true
  whole_nonempty : whole ≠ []
  fraction_nonempty : fraction ≠ []
  zero : whole.head? = some '0' → whole.length = 1 ∨ (d.coefficient = 0 ∧ 0 < d.place)
  value : Nat.ofDigitChars 10 (whole ++ fraction) 0 * 10 ^ (-d.place).toNat
    = d.coefficient * 10 ^ d.place.toNat * 10 ^ fraction.length

theorem digits_ne_nil (d : Decimal) : d.digits ≠ [] :=
  Nat.toDigits_ne_nil

theorem isDigit_of_mem_zeros {k : Nat} : ∀ c ∈ List.replicate k '0', c.isDigit = true := by
  intro c hc
  rw [List.eq_of_mem_replicate hc]
  decide

theorem isDigit_of_mem_padded {d : Decimal} {count : Nat} :
    ∀ c ∈ d.padded count, c.isDigit = true := by
  intro c hc
  rcases List.mem_append.1 hc with hc | hc
  · exact isDigit_of_mem_zeros c hc
  · exact isDigit_of_mem_toDigits c hc

theorem lt_length_padded (d : Decimal) (count : Nat) : count < (d.padded count).length := by
  simp only [padded, List.length_append, List.length_replicate]
  omega

theorem ofDigitChars_padded (d : Decimal) (count : Nat) :
    Nat.ofDigitChars 10 (d.padded count) 0 = d.coefficient := by
  simp only [padded, Nat.ofDigitChars_append, Nat.ofDigitChars_replicate_zero, digits, Nat.mul_zero,
    Nat.ofDigitChars_ten_toDigits]

/-- Zeros behind the digits, and a point behind them. -/
theorem sides_of_nonneg {d : Decimal} (h : 0 ≤ d.place) :
    Sides d (d.digits ++ List.replicate d.place.toNat '0') ['0'] where
  whole_digit := by
    intro c hc
    rcases List.mem_append.1 hc with hc | hc
    · exact isDigit_of_mem_toDigits c hc
    · exact isDigit_of_mem_zeros c hc
  fraction_digit := by simp
  whole_nonempty := by simp [d.digits_ne_nil]
  fraction_nonempty := by simp
  zero := by
    intro hhead
    rw [List.head?_append, Option.or_of_isSome (by simpa using d.digits_ne_nil)] at hhead
    have hcoefficient := eq_zero_of_head?_toDigits hhead
    rcases Nat.eq_zero_or_pos d.place.toNat with hnone | hpos
    · exact .inl (by simp [digits, hcoefficient, hnone])
    · exact .inr ⟨hcoefficient, by omega⟩
  value := by
    have hnone : (-d.place).toNat = 0 := by omega
    have hone : ['0'] = List.replicate 1 '0' := rfl
    rw [hnone, hone]
    simp only [Nat.ofDigitChars_append, Nat.ofDigitChars_replicate_zero, digits,
      Nat.ofDigitChars_ten_toDigits, List.length_replicate, Nat.mul_one, Nat.pow_zero]
    ring

/-- A whole part of several digits is the front of the coefficient's. -/
theorem length_of_head?_take_padded {d : Decimal} {count : Nat}
    (h : ((d.padded count).take ((d.padded count).length - count)).head? = some '0') :
    ((d.padded count).take ((d.padded count).length - count)).length = 1 := by
  have hlength := d.lt_length_padded count
  rcases Nat.lt_or_ge count d.digits.length with hlong | hshort
  · have hpadded : d.padded count = d.digits := by
      simp [padded, Nat.sub_eq_zero_of_le (Nat.succ_le_of_lt hlong)]
    rw [hpadded] at h ⊢
    rw [List.head?_take, if_neg (by omega)] at h
    have hone : d.digits.length = 1 := by simp [digits, eq_zero_of_head?_toDigits h]
    rw [List.length_take]
    omega
  · have hall : (d.padded count).length = count + 1 := by
      simp only [padded, List.length_append, List.length_replicate]
      omega
    rw [List.length_take]
    omega

/-- A point between the digits, or in front of them behind zeros. -/
theorem sides_of_neg {d : Decimal} (h : d.place < 0) :
    let all := d.padded (-d.place).toNat
    Sides d (all.take (all.length - (-d.place).toNat))
      (all.drop (all.length - (-d.place).toNat)) := by
  have hlength := d.lt_length_padded (-d.place).toNat
  have hnone : d.place.toNat = 0 := by omega
  refine ⟨fun c hc => isDigit_of_mem_padded c (List.mem_of_mem_take hc),
    fun c hc => isDigit_of_mem_padded c (List.mem_of_mem_drop hc), ?_, ?_,
    fun hhead => .inl (length_of_head?_take_padded hhead), ?_⟩
  · rw [← List.length_pos_iff, List.length_take]
    omega
  · rw [← List.length_pos_iff, List.length_drop]
    omega
  · rw [List.take_append_drop, List.length_drop, hnone, Nat.sub_sub_self hlength.le,
      ofDigitChars_padded, Nat.pow_zero, Nat.mul_one]

/-- A positional layout is a sign, and digits on both sides of a point. -/
theorem exists_positional (d : Decimal) :
    ∃ whole fraction, d.positional = d.sign ++ (whole ++ '.' :: fraction)
      ∧ Sides d whole fraction := by
  unfold positional
  split
  · next hplace => exact ⟨_, _, by simp, sides_of_nonneg hplace⟩
  · next hplace => exact ⟨_, _, List.append_assoc .., sides_of_neg (not_le.1 hplace)⟩

/-- A decimal written positionally reads as the same double as the decimal, and has a point. -/
theorem ofPlain?_positional (d : Decimal) :
    ∃ n, Numeral.ofPlain? d.positional = some n ∧ n.isWhole = false
      ∧ n.toDecimal.nearest? = d.nearest? := by
  obtain ⟨whole, fraction, htext, hsides⟩ := d.exists_positional
  refine ⟨⟨d.negative, whole, some fraction, none⟩, ?_, rfl, nearest?_congr rfl ?_⟩
  · rw [htext, sign,
      Numeral.ofPlain?_append (Numeral.head?_ne_sign hsides.whole_digit _ (by simp)),
      Numeral.ofUnsigned?_point hsides.whole_digit hsides.fraction_digit
        (by simp [hsides.fraction_nonempty])]
  · simpa [numerator, denominator, Numeral.toDecimal, Numeral.digits] using hsides.value

end Decimal

/-- The plain text of a number is a numeral. -/
theorem Number.exists_ofPlain? (n : Number) : ∃ m, Numeral.ofPlain? n.plain = some m := by
  cases n with
  | int i =>
    obtain ⟨m, hm, -⟩ := i.ofPlain?_text
    exact ⟨m, hm⟩
  | float x =>
    obtain ⟨m, hm, -⟩ := (x.shortest .away).ofPlain?_positional
    exact ⟨m, hm⟩

end DocSearch
