import DocSearch.Proofs.Json.Spans

/-!
# JSON — numbers read back from their texts

The text of a number in JSON is a numeral, in front of any text that does not go on with it
(`BeginsWith`, `exists_beginsWith_json`).  Whether that numeral is read as the number again depends on
how doubles are read (`BeginsWith.readBy?_json_iff`).

* An integer's text has neither point nor exponent, and no zero in front of other digits, so it is
  an integer again, and of the same value, however doubles are read (`readBy?_json_int`).
* A double's text has a point or an exponent, so it is read as a double.  A positional layout has
  the value of the shortest decimal (`Decimal.exists_positional`), and a scientific one is that
  decimal digit by digit (`exists_numeral_scientific`); so both are read back where every numeral is
  read as the nearest double (`readBy?_json_nearest`), for that is the double that the decimal was
  made for (`Binary64.nearest?_shortest`).

Documents are not read that way, but approximately (`Numeral.approximate?`), and there are doubles that
are not read back from their texts.
-/

namespace DocSearch

/-- A shortest decimal with no digit but zero is that of a zero. -/
theorem Binary64.place_shortest {tie : Tie} {x : Binary64}
    (h : (x.shortest tie).coefficient = 0) : (x.shortest tie).place = 0 := by
  have hread := nearest?_shortest tie x
  rw [Decimal.nearest?, if_pos h] at hread
  have hzero : x.magnitude = 0 := by
    rw [← Option.some.inj hread]
    rfl
  rw [shortest, if_pos hzero]

namespace Json

/-- A text does not go on with a number. -/
def EndsNumeral (rest : Text) : Prop :=
  ∀ c, rest.head? = some c → c.isDigit = false ∧ c ≠ '.' ∧ c ≠ 'e' ∧ c ≠ 'E'

section
variable {negative : Bool} {whole digits s s' rest : Text} {fraction : Option Text}
  {exponent : Option Int}

namespace EndsNumeral

theorem head?_all (h : EndsNumeral rest) : rest.head?.all (!Char.isDigit ·) = true := by
  cases hhead : rest.head? with
  | none => rfl
  | some c => simpa using (h c hhead).1

theorem fraction? (h : EndsNumeral rest) : Json.fraction? rest = some (none, rest) :=
  fraction?_of_head? fun hhead => (h _ hhead).2.1 rfl

theorem exponent? (h : EndsNumeral rest) : Json.exponent? rest = some (none, rest) :=
  exponent?_of_head? ⟨fun hhead => (h _ hhead).2.2.1 rfl, fun hhead => (h _ hhead).2.2.2 rfl⟩

end EndsNumeral

/-! ### The parts of a numeral -/

theorem fraction?_point (hdigits : ∀ c ∈ digits, c.isDigit = true) (hne : digits ≠ [])
    (hs : s.head?.all (!Char.isDigit ·)) :
    fraction? ('.' :: (digits ++ s)) = some (some digits, s) := by
  obtain ⟨htake, hdrop⟩ := Numeral.takeWhile_isDigit hdigits hs
  simp only [fraction?, htake, hdrop]
  exact if_neg (by simpa using hne)

theorem exponent?_signedDigits (n : Int) (hs : s.head?.all (!Char.isDigit ·)) :
    exponent? ('e' :: (Decimal.signedDigits n ++ s)) = some (some n, s) := by
  obtain ⟨htake, hdrop⟩ :=
    Numeral.takeWhile_isDigit (isDigit_of_mem_toDigits (k := n.natAbs)) hs
  have hsplit : Numeral.splitSign (Decimal.signedDigits n ++ s)
      = (decide (n < 0), Nat.toDigits 10 n.natAbs ++ s) := by
    by_cases hn : n < 0 <;> simp [Decimal.signedDigits, hn, Numeral.splitSign]
  have hvalue : (if n < 0 then -(n.natAbs : Int) else n.natAbs) = n := by
    split <;> omega
  have hne : (Nat.toDigits 10 n.natAbs).isEmpty = false := by simp
  simp only [exponent?, true_or, if_true, hsplit, htake, hdrop, hne, Bool.false_eq_true, if_false,
    Nat.ofDigitChars_ten_toDigits, decide_eq_true_eq, hvalue]

/-- A numeral is its sign, its digits up to the point, and what the readers of fractions and
exponents take. -/
theorem numeral?_append (hwhole : ∀ c ∈ whole, c.isDigit = true) (hne : whole ≠ [])
    (hzero : whole.head? = some '0' → whole.length = 1) (hs : s.head?.all (!Char.isDigit ·))
    (hfraction : fraction? s = some (fraction, s')) (hexponent : exponent? s' = some (exponent, rest)) :
    numeral? ((if negative then ['-'] else []) ++ (whole ++ s))
      = some (⟨negative, whole, fraction, exponent⟩, rest) := by
  obtain ⟨htake, hdrop⟩ := Numeral.takeWhile_isDigit hwhole hs
  have hlead : ¬(whole.isEmpty = true ∨ (whole.head? = some '0' ∧ whole.length ≠ 1)) := by
    rintro (hnil | ⟨hhead, hlength⟩)
    · exact hne (by simpa using hnil)
    · exact hlength (hzero hhead)
  have hunsigned : unsigned? negative (whole ++ s)
      = some (⟨negative, whole, fraction, exponent⟩, rest) := by
    simp only [unsigned?, htake, hdrop, if_neg hlead, hfraction, hexponent, Option.bind_eq_bind,
      Option.bind_some]
    rfl
  cases negative with
  | true => exact (numeral?_minus _).trans hunsigned
  | false =>
    have hhead : (whole ++ s).head? ≠ some '-' := by
      obtain ⟨c, whole, rfl⟩ := List.exists_cons_of_ne_nil hne
      intro h
      obtain rfl : c = '-' := by simpa using h
      exact absurd (hwhole _ List.mem_cons_self) (by decide)
    exact (numeral?_of_head? hhead).trans hunsigned

end

/-! ### The layouts of a number -/

/-- A text is a numeral, in front of whatever does not go on with it. -/
def BeginsWith (m : Numeral) (t : Text) : Prop :=
  ∀ rest, EndsNumeral rest → numeral? (t ++ rest) = some (m, rest)

/-- The number of a numeral with a point or an exponent is a double. -/
theorem numberOf?_of_not_whole {double? : ReadsDouble} {m : Numeral} (h : m.isWhole = false) :
    numberOf? double? m = (double? m).map .float := by
  unfold numberOf?
  split
  · simp [h]
  · rfl

/-- An integer is written without zeros in front, and without point and exponent. -/
theorem beginsWith_int (i : Integer64) :
    BeginsWith ⟨i.value < 0, Nat.toDigits 10 i.value.natAbs, none, none⟩ i.text := by
  intro rest hrest
  have hzero : (Nat.toDigits 10 i.value.natAbs).head? = some '0' →
      (Nat.toDigits 10 i.value.natAbs).length = 1 := by
    intro h
    rw [eq_zero_of_head?_toDigits h]
    rfl
  rw [← numeral?_append isDigit_of_mem_toDigits Nat.toDigits_ne_nil hzero hrest.head?_all
    hrest.fraction? hrest.exponent?]
  simp [Integer64.text]

theorem exists_numeral_positional {d : Decimal} (h : d.coefficient = 0 → d.place = 0) :
    ∃ m, BeginsWith m d.positional ∧ m.isWhole = false ∧ m.toDecimal.nearest? = d.nearest? := by
  obtain ⟨whole, fraction, htext, hsides⟩ := d.exists_positional
  have hlead : whole.head? = some '0' → whole.length = 1 := by
    intro hhead
    rcases hsides.zero hhead with hlength | ⟨hcoefficient, hplace⟩
    · exact hlength
    · have := h hcoefficient
      omega
  refine ⟨⟨d.negative, whole, some fraction, none⟩, fun rest hrest => ?_, rfl,
    Decimal.nearest?_congr rfl ?_⟩
  · rw [htext, List.append_assoc, List.append_assoc]
    exact numeral?_append hsides.whole_digit hsides.whole_nonempty hlead rfl
      (fraction?_point hsides.fraction_digit hsides.fraction_nonempty hrest.head?_all)
      hrest.exponent?
  · simpa [Decimal.numerator, Decimal.denominator, Numeral.toDecimal, Numeral.digits]
      using hsides.value

theorem exists_numeral_scientific (d : Decimal) :
    ∃ m, BeginsWith m d.scientific ∧ m.isWhole = false ∧ m.toDecimal = d := by
  have hdigits : ∀ c ∈ d.digits, c.isDigit = true := fun c hc => isDigit_of_mem_toDigits c hc
  have hcoefficient : Nat.ofDigitChars 10 d.digits 0 = d.coefficient :=
    Nat.ofDigitChars_ten_toDigits
  have hexponent := fun {rest : Text} (hrest : EndsNumeral rest) =>
    exponent?_signedDigits d.exponent hrest.head?_all
  have hlength : d.exponent = d.place + d.digits.length - 1 := rfl
  unfold Decimal.scientific
  split
  · next hnil => exact absurd hnil Nat.toDigits_ne_nil
  · next first hone =>
    rw [hone] at hdigits hcoefficient hlength
    refine ⟨⟨d.negative, [first], none, some d.exponent⟩, fun rest hrest => ?_, rfl, ?_⟩
    · rw [List.append_assoc]
      exact numeral?_append hdigits (by simp) (fun _ => rfl) rfl (fraction?_of_head? (by simp))
        (hexponent hrest)
    · have hplace : d.exponent = d.place := by simpa using hlength
      simp [Numeral.toDecimal, Numeral.digits, hcoefficient, hplace]
  · next first others hne hmore =>
    rw [hmore] at hdigits hcoefficient hlength
    obtain ⟨hfirst, hothers⟩ := List.forall_mem_cons.1 hdigits
    refine ⟨⟨d.negative, [first], some others, some d.exponent⟩, fun rest hrest => ?_, rfl, ?_⟩
    · rw [List.append_assoc, List.append_assoc]
      exact numeral?_append (List.forall_mem_singleton.2 hfirst) (by simp) (fun _ => rfl) rfl
        (fraction?_point hothers hne rfl) (hexponent hrest)
    · have hplace : d.exponent - (others.length : Int) = d.place := by
        rw [hlength, List.length_cons]
        omega
      simp [Numeral.toDecimal, Numeral.digits, hcoefficient, hplace]

/-- A double is written as a numeral with a point or an exponent, which stands for the shortest
decimal. -/
theorem exists_numeral_float (x : Binary64) :
    ∃ m, BeginsWith m (Number.float x).json ∧ m.isWhole = false
      ∧ m.toDecimal.nearest? = (x.shortest .toEven).nearest? := by
  by_cases hrange : -5 ≤ (x.shortest .toEven).exponent ∧ (x.shortest .toEven).exponent ≤ 15
  · rw [Number.json, if_pos hrange]
    exact exists_numeral_positional (Binary64.place_shortest (x := x))
  · obtain ⟨m, hm, hwhole, hdecimal⟩ := exists_numeral_scientific (x.shortest .toEven)
    rw [Number.json, if_neg hrange]
    exact ⟨m, hm, hwhole, congrArg Decimal.nearest? hdecimal⟩

/-- The text of a number is a numeral. -/
theorem exists_beginsWith_json (n : Number) : ∃ m, BeginsWith m n.json := by
  cases n with
  | int i => exact ⟨_, beginsWith_int i⟩
  | float x => exact (exists_numeral_float x).imp fun _ => And.left

/-! ### Reading back -/

/-- A numeral begins with none of the characters that other values begin with. -/
theorem ne_of_begins_numeral {c : Char} (h : c = '-' ∨ c.isDigit = true) :
    isSpace c = false ∧ (c ≠ '[' ∧ c ≠ '\x7b') ∧ c ≠ ']' ∧ c ≠ '"' := by
  rcases h with rfl | hdigit
  · decide
  · refine ⟨?_, ⟨?_, ?_⟩, ?_, ?_⟩
    · rw [← Bool.not_eq_true]
      intro hspace
      rcases isSpace_cases hspace with rfl | rfl | rfl | rfl <;> cases hdigit
    all_goals
      rintro rfl
      cases hdigit

section
variable {double? : ReadsDouble} {m : Numeral} {t rest : Text}

theorem EndsNumeral.nil : EndsNumeral [] :=
  fun _ h => nomatch h

theorem BeginsWith.exists_cons (h : BeginsWith m t) :
    ∃ c s, t = c :: s ∧ (c = '-' ∨ c.isDigit = true) := by
  obtain ⟨_, ⟨-, c, s, rfl, hc⟩, ht, -⟩ := numeral?_local (h [] .nil)
  exact ⟨c, s, by simpa using ht, hc⟩

/-- A text is read as the value that takes all of it. -/
theorem readBy?_of_value? {outcome : Option Json}
    (h : value? double? maxDepth t = outcome.map (·, [])) : readBy? double? t = outcome := by
  rw [readBy?, h]
  cases outcome <;> rfl

/-- A numeral is a scalar, and the number that it stands for. -/
theorem BeginsWith.scalar?_eq (double? : ReadsDouble) (h : BeginsWith m t)
    (hrest : EndsNumeral rest) :
    scalar? double? (t ++ rest) = (numberOf? double? m).map fun n => (.number n, rest) := by
  obtain ⟨c, s, rfl, hc⟩ := h.exists_cons
  have hnone : word? (c :: s ++ rest) = none := word?_eq_none hc _
  obtain ⟨-, -, -, hquote⟩ := ne_of_begins_numeral hc
  rw [scalar?_of_head? (by simpa using hquote)]
  simp only [hnone, h rest hrest, Option.bind_eq_bind, Option.bind_some]
  cases numberOf? double? m <;> rfl

/-- A numeral alone is read as its number. -/
theorem BeginsWith.readBy?_eq (h : BeginsWith m t) :
    readBy? double? t = (numberOf? double? m).map .number := by
  have hscalar := h.scalar?_eq double? .nil
  obtain ⟨c, s, rfl, hc⟩ := h.exists_cons
  obtain ⟨hspace, hcontainer, -⟩ := ne_of_begins_numeral hc
  rw [List.append_nil] at hscalar
  refine readBy?_of_value? ?_
  rw [value?_scalar (skipSpace_cons hspace) hcontainer, hscalar, Option.map_map]
  rfl

/-- A number is read back when that is the number of its numeral. -/
theorem BeginsWith.readBy?_json_iff {n : Number} (h : BeginsWith m n.json) :
    readBy? double? n.json = some (.number n) ↔ numberOf? double? m = some n := by
  rw [h.readBy?_eq, Option.map_eq_some_iff]
  simp

end

/-- Integers are read back, however doubles are read. -/
theorem readBy?_json_int (double? : ReadsDouble) (i : Integer64) :
    readBy? double? (Number.int i).json = some (.number (.int i)) := by
  refine (BeginsWith.readBy?_json_iff (n := .int i) (beginsWith_int i)).2 ?_
  have hvalue : Numeral.wholeValue ⟨i.value < 0, Nat.toDigits 10 i.value.natAbs, none, none⟩
      = i.value := by
    simp only [Numeral.wholeValue, Nat.ofDigitChars_ten_toDigits, decide_eq_true_eq]
    split <;> omega
  have hin : Integer64.ofInt? i.value = some i := dif_pos i.inRange
  have hsign : ¬(i.value < 0 ∧ i.value = 0) := by omega
  simp only [numberOf?, hvalue, hin, decide_eq_true_eq, hsign]
  rfl

/-- **All numbers are read back if numerals are read as the nearest doubles.** -/
theorem readBy?_json_nearest (n : Number) :
    readBy? (·.toDecimal.nearest?) n.json = some (.number n) := by
  cases n with
  | int i => exact readBy?_json_int _ i
  | float x =>
    obtain ⟨m, hm, hwhole, hnearest⟩ := exists_numeral_float x
    rw [hm.readBy?_json_iff, numberOf?_of_not_whole hwhole, hnearest, Binary64.nearest?_shortest]
    rfl

end Json

end DocSearch
