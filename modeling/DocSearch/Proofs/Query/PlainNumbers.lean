import DocSearch.Proofs.Query.Classification
import DocSearch.Proofs.Query.OwnField

/-!
# Query — numbers read back from their plain texts

A number is written in a query without quotes, and what is read of it there is a number again
(`Value.exists_classify_plain`).  Which one depends on its kind, and the kind is told by the point:

* The text of a double has exactly one, so it is never read as an integer, and it is the numeral of a
  decimal that has the double as its nearest.  The sign is written of zero as well
  (`Value.exists_spells_plain`).
* The text of an integer has none.  It is read as that integer if 64 bits hold it with a sign, and as
  the nearest double otherwise.

`Value.classify_printed` puts these together.
-/

namespace DocSearch.Query.Value

open Binary64 (IsNearest)
open Numeral (Spells valueOf)

/-- The text of a double is a numeral with a point, of the double's sign, and stands for a value that
has the double as its nearest. -/
theorem exists_spells_plain (x : Binary64) :
    ∃ whole fraction, Spells (plain (.number (.float x))) x.negative whole (some fraction)
      ∧ IsNearest (valueOf x.negative whole (some fraction)) x := by
  obtain ⟨m, hm, hpoint, hvalue⟩ := (x.shortest .away).ofPlain?_positional
  obtain ⟨hexponent, hspells⟩ := Numeral.spells_of_ofPlain? hm
  rw [Binary64.nearest?_shortest, Decimal.nearest?_eq_some_iff_isNearest,
    Numeral.toRat_toDecimal hexponent] at hvalue
  obtain ⟨hsign, hnearest⟩ := hvalue
  obtain ⟨fraction, hfraction⟩ : ∃ fraction, m.fraction = some fraction := by
    rw [Numeral.isWhole, hexponent] at hpoint
    exact Option.isSome_iff_exists.1 (by simpa using hpoint)
  have hnegative : m.negative = x.negative := hsign.symm
  rw [hnegative, hfraction] at hspells hnearest
  exact ⟨m.whole, fraction, hspells, hnearest⟩

/-- A plain numeral has no exponent. -/
theorem exponent_not_mem {s : Text} (h : isNumeral s = true) : 'e' ∉ s ∧ 'E' ∉ s := by
  obtain ⟨m, hm⟩ := Option.isSome_iff_exists.1 h
  obtain ⟨-, hchar⟩ := Numeral.char_of_ofPlain? hm
  exact ⟨fun hmem => absurd (hchar _ hmem) (by decide),
    fun hmem => absurd (hchar _ hmem) (by decide)⟩

/-- **Numbers are read back from their plain texts.**  The text of a double has one point and no
exponent, and is read as the very double, be it a zero with a sign or next to one.  The text of an
integer is read as the integer up to 2⁶³ - 1, and from there on as the double nearest to it. -/
theorem classify_printed :
    (∀ x : Binary64, let s := plain (.number (.float x))
      (∃ whole fraction, Spells s x.negative whole (some fraction)
        ∧ IsNearest (valueOf x.negative whole (some fraction)) x)
      ∧ s.count '.' = 1 ∧ 'e' ∉ s ∧ 'E' ∉ s
      ∧ classify s false = .number (.float x))
    ∧ (∀ i : Integer64, i.value < 2 ^ 63 →
        classify (plain (.number (.int i))) false = .number (.int i))
    ∧ ∀ i : Integer64, 2 ^ 63 ≤ i.value →
        ∃ x, classify (plain (.number (.int i))) false = .number (.float x) ∧ IsNearest i.value x := by
  refine ⟨fun x => ?float, fun i hi => ?signed, fun i hi => ?unsigned⟩
  case float =>
    intro s
    obtain ⟨whole, fraction, hspells, hnearest⟩ := exists_spells_plain x
    obtain ⟨hlower, hupper⟩ := exponent_not_mem (isNumeral_plain (.float x))
    have hread : classify (Number.float x).plain false = .number (.float x) :=
      classify_plain (by simp [Signed])
    exact ⟨⟨whole, fraction, hspells, hnearest⟩, Spells.count_point hspells, hlower, hupper, hread⟩
  case signed =>
    have hsigned : (Value.number (.int i)).Signed := by
      rintro j hj
      cases hj
      exact hi
    exact classify_plain hsigned
  case unsigned => exact ⟨_, classify_plain_of_le hi, Number.isNearest (.int i)⟩

/-- The negative zero, the smallest double above zero, and the largest integers with a sign and
without. -/
theorem classify_printed_extreme :
    plain (.number (.float (.zero true))) = "-0.0".toList
    ∧ classify "-0.0".toList false = .number (.float (.zero true))
    ∧ (plain (.number (.float ⟨false, 1, by decide⟩))).count '.' = 1
    ∧ classify "9223372036854775807".toList false
        = .number (.int ⟨0x7FFFFFFFFFFFFFFF, by decide⟩)
    ∧ ∃ x, classify "18446744073709551615".toList false = .number (.float x)
        ∧ IsNearest 18446744073709551615 x := by
  obtain ⟨hfloat, hsigned, hunsigned⟩ := classify_printed
  have hzero : plain (.number (.float (.zero true))) = "-0.0".toList := by decide +kernel
  have hlargest : plain (.number (.int ⟨0x7FFFFFFFFFFFFFFF, by decide⟩))
      = "9223372036854775807".toList := by decide +kernel
  have hbeyond : plain (.number (.int ⟨0xFFFFFFFFFFFFFFFF, by decide⟩))
      = "18446744073709551615".toList := by decide +kernel
  obtain ⟨-, -, -, -, hread⟩ := hfloat (.zero true)
  obtain ⟨-, hpoint, -⟩ := hfloat ⟨false, 1, by decide⟩
  have hint := hsigned ⟨0x7FFFFFFFFFFFFFFF, by decide⟩ (by decide)
  obtain ⟨x, hx, hnearest⟩ := hunsigned ⟨0xFFFFFFFFFFFFFFFF, by decide⟩ (by decide)
  rw [hzero] at hread
  rw [hlargest] at hint
  rw [hbeyond] at hx
  exact ⟨hzero, hread, hpoint, hint, x, hx, by exact_mod_cast hnearest⟩

end DocSearch.Query.Value
