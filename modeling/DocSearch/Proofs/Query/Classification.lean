import DocSearch.Proofs.Number.Numerals
import DocSearch.Proofs.Query.RoundTrip

/-!
# Query — which raw values are numbers

A raw value is a number exactly if it stands without quotes, is a plain numeral, and the double nearest to
its value is finite; and then it is that double, or the value itself if the numeral has no point and
64 bits hold it with a sign.  Anything else is the text that it is (`Value.classify_exact`).

Of the two readings of a numeral the integer comes first (`numberOf?_eq_some_iff`).  Whether there is any
does not depend on which, since every integer of 64 bits has a nearest double
(`exists_numberOf?_iff`).
-/

namespace DocSearch.Query.Value

open Binary64 (IsNearest)
open Numeral (Spells valueOf)

/-- 64 bits hold an integer with a sign exactly from -2⁶³ to 2⁶³ - 1. -/
theorem signed64?_eq_some_iff {n : ℤ} {i : Integer64} :
    signed64? n = some i ↔ (-2 ^ 63 ≤ n ∧ n ≤ 2 ^ 63 - 1) ∧ i.value = n := by
  unfold signed64? Integer64.ofInt?
  constructor
  · intro h
    split at h
    · split at h
      · cases h
        exact ⟨by omega, rfl⟩
      · cases h
    · cases h
  · rintro ⟨hrange, rfl⟩
    rw [if_pos (by omega), dif_pos i.inRange]

/-- The digits in front of the point are all of the numeral, and 64 bits hold its value with a sign. -/
def Fits (m : Numeral) : Prop :=
  m.fraction = none ∧ -2 ^ 63 ≤ valueOf m.negative m.whole m.fraction
  ∧ valueOf m.negative m.whole m.fraction ≤ 2 ^ 63 - 1

variable {m : Numeral} {n : Number}

theorem signed64?_wholeValue {i : Integer64} (hexponent : m.exponent = none) :
    (if m.isWhole then signed64? m.wholeValue else none) = some i
      ↔ Fits m ∧ (i.value : ℚ) = valueOf m.negative m.whole m.fraction := by
  unfold Numeral.isWhole Fits
  rw [hexponent]
  cases hfraction : m.fraction with
  | some f => simp
  | none =>
    rw [← Numeral.wholeValue_eq]
    simp only [Option.isNone_none, Bool.and_self, if_true, true_and, signed64?_eq_some_iff]
    norm_cast

theorem Fits.exists_value (h : Fits m) :
    ∃ i : Integer64, (i.value : ℚ) = valueOf m.negative m.whole m.fraction := by
  obtain ⟨hfraction, hlower, hupper⟩ := h
  rw [hfraction, ← Numeral.wholeValue_eq] at *
  have hlower' : -2 ^ 63 ≤ m.wholeValue := by exact_mod_cast hlower
  have hupper' : m.wholeValue ≤ 2 ^ 63 - 1 := by exact_mod_cast hupper
  exact ⟨⟨m.wholeValue, by omega⟩, rfl⟩

/-- A numeral that fits stands for its value, any other for the nearest double, if it is finite. -/
theorem numberOf?_eq_some_iff (hexponent : m.exponent = none) :
    numberOf? m = some n ↔
      (Fits m ∧ ∃ i, n = .int i ∧ (i.value : ℚ) = valueOf m.negative m.whole m.fraction)
      ∨ (¬ Fits m ∧ ∃ x, n = .float x ∧ IsNearest (valueOf m.negative m.whole m.fraction) x
          ∧ x.negative = m.negative) := by
  unfold numberOf?
  split
  · next i hi =>
    obtain ⟨hfits, hvalue⟩ := (signed64?_wholeValue hexponent).1 hi
    constructor
    · intro h
      cases h
      exact .inl ⟨hfits, i, rfl, hvalue⟩
    · rintro (⟨-, j, rfl, hj⟩ | ⟨hnot, -⟩)
      · have hij : i.value = j.value := by exact_mod_cast hvalue.trans hj.symm
        obtain ⟨_, _⟩ := i
        obtain ⟨_, _⟩ := j
        cases hij
        rfl
      · exact absurd hfits hnot
  · next hi =>
    have hnot : ¬ Fits m := by
      intro hfits
      obtain ⟨i, hvalue⟩ := hfits.exists_value
      rw [(signed64?_wholeValue hexponent).2 ⟨hfits, hvalue⟩] at hi
      cases hi
    simp only [Option.map_eq_some_iff, Decimal.nearest?_eq_some_iff_isNearest,
      Numeral.toRat_toDecimal hexponent]
    constructor
    · rintro ⟨x, ⟨hsign, hx⟩, rfl⟩
      exact .inr ⟨hnot, x, rfl, hx, hsign⟩
    · rintro (⟨hfits, -⟩ | ⟨-, x, rfl, hx, hsign⟩)
      · exact absurd hfits hnot
      · exact ⟨x, ⟨hsign, hx⟩, rfl⟩

theorem exists_numberOf?_iff (hexponent : m.exponent = none) :
    (∃ n, numberOf? m = some n) ↔ ∃ x, IsNearest (valueOf m.negative m.whole m.fraction) x := by
  constructor
  · rintro ⟨n, hn⟩
    rcases (numberOf?_eq_some_iff hexponent).1 hn with ⟨-, i, -, hvalue⟩ | ⟨-, x, -, hx, -⟩
    · rw [← hvalue]
      exact ⟨_, Number.isNearest (.int i)⟩
    · exact ⟨x, hx⟩
  · rintro ⟨x, hx⟩
    by_cases hfits : Fits m
    · obtain ⟨i, hvalue⟩ := hfits.exists_value
      exact ⟨.int i, (numberOf?_eq_some_iff hexponent).2 (.inl ⟨hfits, i, rfl, hvalue⟩)⟩
    · have hrange := hx.inRange
      rw [← Numeral.toRat_toDecimal hexponent] at hrange
      obtain ⟨y, hy⟩ := Decimal.exists_nearest? hrange
      rw [Decimal.nearest?_eq_some_iff_isNearest, Numeral.toRat_toDecimal hexponent] at hy
      exact ⟨.float y, (numberOf?_eq_some_iff hexponent).2 (.inr ⟨hfits, y, rfl, hy.2, hy.1⟩)⟩

theorem classify_eq_number_iff {raw : Text} {quoted : Bool} :
    classify raw quoted = .number n
      ↔ quoted = false ∧ ∃ m, Numeral.ofPlain? raw = some m ∧ numberOf? m = some n := by
  unfold classify
  cases quoted with
  | true => simp
  | false =>
    cases hread : Numeral.ofPlain? raw with
    | none => simp
    | some m => cases hnumber : numberOf? m <;> simp [hnumber]

/-- **Which raw values are numbers, and which numbers.**  Numbers are the plain numerals without
quotes that have a nearest double; one without point within the signed integers of 64 bits is its
value, any other the nearest double, with the numeral's sign on zero as well.  The rest is text. -/
theorem classify_exact (raw : Text) (quoted : Bool) :
    ((∃ n, classify raw quoted = .number n) ↔
      quoted = false ∧ ∃ negative whole fraction, Spells raw negative whole fraction
        ∧ ∃ x, IsNearest (valueOf negative whole fraction) x)
    ∧ (∀ n negative whole fraction, classify raw quoted = .number n →
        Spells raw negative whole fraction →
        let q := valueOf negative whole fraction
        let fits := '.' ∉ raw ∧ -2 ^ 63 ≤ q ∧ q ≤ 2 ^ 63 - 1
        (fits → ∃ i, n = .int i ∧ (i.value : ℚ) = q)
        ∧ (¬ fits → ∃ x, n = .float x ∧ IsNearest q x ∧ x.negative = negative))
    ∧ ((¬ ∃ n, classify raw quoted = .number n) → classify raw quoted = .text raw) := by
  refine ⟨⟨?_, ?_⟩, ?_, fun hnone => ?_⟩
  · rintro ⟨n, hn⟩
    obtain ⟨hquoted, m, hm, hnumber⟩ := classify_eq_number_iff.1 hn
    obtain ⟨hexponent, hspells⟩ := Numeral.spells_of_ofPlain? hm
    exact ⟨hquoted, _, _, _, hspells, (exists_numberOf?_iff hexponent).1 ⟨n, hnumber⟩⟩
  · rintro ⟨hquoted, negative, whole, fraction, hspells, hnearest⟩
    obtain ⟨n, hnumber⟩ :=
      (exists_numberOf?_iff (m := ⟨negative, whole, fraction, none⟩) rfl).2 hnearest
    exact ⟨n, classify_eq_number_iff.2 ⟨hquoted, _, Numeral.ofPlain?_of_spells hspells, hnumber⟩⟩
  · intro n negative whole fraction hn hspells q fits
    obtain ⟨-, m, hm, hnumber⟩ := classify_eq_number_iff.1 hn
    rw [Numeral.ofPlain?_of_spells hspells] at hm
    cases hm
    have hfits : Fits ⟨negative, whole, fraction, none⟩ ↔ fits :=
      and_congr_left' hspells.point_iff.symm
    rcases (numberOf?_eq_some_iff rfl).1 hnumber with ⟨h, hint⟩ | ⟨h, hfloat⟩
    · exact ⟨fun _ => hint, fun hnot => absurd (hfits.1 h) hnot⟩
    · exact ⟨fun hyes => absurd (hfits.2 hyes) h, fun _ => hfloat⟩
  · cases hvalue : classify raw quoted with
    | number n => exact absurd ⟨n, hvalue⟩ hnone
    | text s => rw [(classify_spec raw quoted).1 s hvalue]

end DocSearch.Query.Value
