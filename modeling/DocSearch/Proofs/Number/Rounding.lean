import DocSearch.Number.Shortest
import Mathlib.Tactic.Linarith
import Mathlib.Tactic.NormNum
import Mathlib.Tactic.Ring

/-!
# Numbers — rounding to the nearest double

Rounding depends on the value of a quotient, not on its two parts (`nearestMagnitude_congr`), and a
quotient that is a double rounds to it (`nearestMagnitude_units`).

A decimal is rounded without forming powers of ten when it is far outside the range of the
doubles.  These shortcuts change nothing: a decimal reads as the double nearest to its value
(`Decimal.nearest?_eq_ofRatio?`).  So decimals of equal value read alike (`Decimal.nearest?_congr`),
and the shortest decimal of a double reads as the double (`Binary64.nearest?_shortest`): the search
for it ends with a decimal of the double's own value.
-/

namespace DocSearch

namespace Binary64

/-! ### The value of a quotient -/

theorem divEven_mul_mul {k : Nat} (hk : 0 < k) (n d : Nat) :
    divEven (n * k) (d * k) = divEven n d := by
  have hmod : 2 * (n * k % (d * k)) = 2 * (n % d) * k := by
    rw [Nat.mul_mod_mul_right, Nat.mul_assoc]
  simp only [divEven, hmod, Nat.mul_div_mul_right _ _ hk, Nat.mul_lt_mul_right hk]

theorem nearestMagnitude_mul_mul {k : Nat} (hk : 0 < k) (n d : Nat) :
    nearestMagnitude (n * k) (d * k) = nearestMagnitude n d := by
  have hn : n * k * unitsInOne = n * unitsInOne * k := Nat.mul_right_comm ..
  have hd : ∀ scale, d * k * Nat.pow 2 scale = d * Nat.pow 2 scale * k :=
    fun scale => Nat.mul_right_comm ..
  simp only [nearestMagnitude, hn, hd, Nat.mul_div_mul_right _ _ hk, divEven_mul_mul hk]

/-- Equal quotients round alike. -/
theorem nearestMagnitude_congr {n d n' d' : Nat} (hd : 0 < d) (hd' : 0 < d')
    (h : n * d' = n' * d) : nearestMagnitude n d = nearestMagnitude n' d' := by
  rw [← nearestMagnitude_mul_mul hd', h, Nat.mul_comm d, nearestMagnitude_mul_mul hd]

/-! ### Doubles round to themselves -/

/-- A significand lies below 2⁵³, and from 2⁵² on unless the scale is zero. -/
theorem significandOf_bounds (magnitude : Nat) :
    significandOf magnitude < 2 * binade
      ∧ (scaleOf magnitude = 0 ∨ binade ≤ significandOf magnitude)
      ∧ scaleOf magnitude * binade + significandOf magnitude = magnitude := by
  unfold significandOf scaleOf
  have := Nat.div_add_mod magnitude binade
  have := Nat.mod_lt magnitude (show 0 < binade by decide)
  simp only [binade] at *
  omega

/-- The scale of a magnitude is found again in its units. -/
theorem log2_units (magnitude : Nat) :
    (significandOf magnitude * 2 ^ scaleOf magnitude).log2 - 52 = scaleOf magnitude := by
  obtain ⟨hlt, hge, -⟩ := significandOf_bounds magnitude
  have hbinade : binade = 2 ^ 52 := rfl
  have hpow : 2 ^ (52 + scaleOf magnitude) = binade * 2 ^ scaleOf magnitude := by
    rw [hbinade, Nat.pow_add]
  have hupper :
      significandOf magnitude * 2 ^ scaleOf magnitude < 2 ^ (52 + scaleOf magnitude + 1) := by
    rw [Nat.pow_succ, hpow, Nat.mul_right_comm, Nat.mul_comm binade]
    exact Nat.mul_lt_mul_of_pos_right hlt (Nat.two_pow_pos _)
  rcases Nat.eq_zero_or_pos (significandOf magnitude * 2 ^ scaleOf magnitude) with h0 | hpos
  · have hsig : significandOf magnitude = 0 := by
      rcases Nat.mul_eq_zero.1 h0 with h | h
      · exact h
      · exact absurd h (Nat.two_pow_pos _).ne'
    have hscale : scaleOf magnitude = 0 := by
      rcases hge with h | h
      · exact h
      · rw [hsig, hbinade] at h
        simp at h
    rw [h0, hscale]
    rfl
  · have hlog := (Nat.log2_lt hpos.ne').2 hupper
    rcases hge with hzero | hge
    · omega
    · have hlower :
          2 ^ (52 + scaleOf magnitude) ≤ significandOf magnitude * 2 ^ scaleOf magnitude := by
        rw [hpow]
        exact Nat.mul_le_mul_right _ hge
      have := (Nat.le_log2 hpos.ne').2 hlower
      omega

/-- A double rounds to itself. -/
theorem nearestMagnitude_units (x : Binary64) :
    nearestMagnitude x.units unitsInOne = x.magnitude := by
  obtain ⟨-, -, hsum⟩ := significandOf_bounds x.magnitude
  have hunits : x.units = significandOf x.magnitude * 2 ^ scaleOf x.magnitude := rfl
  have hquot : x.units * unitsInOne / unitsInOne = x.units := Nat.mul_div_cancel _ unitsInOne_pos
  have hdiv : x.units * unitsInOne
      = significandOf x.magnitude * (unitsInOne * Nat.pow 2 (scaleOf x.magnitude)) := by
    rw [hunits, Nat.pow_eq, Nat.mul_assoc, Nat.mul_comm unitsInOne]
  have hpos : 0 < unitsInOne * Nat.pow 2 (scaleOf x.magnitude) :=
    Nat.mul_pos unitsInOne_pos (Nat.two_pow_pos _)
  have hscale : x.units.log2 - 52 = scaleOf x.magnitude := log2_units x.magnitude
  simp only [nearestMagnitude, hquot, hscale]
  rw [hdiv, divEven_mul hpos, hsum]

/-! ### Far outside the range of the doubles -/

theorem div_le_divEven (n d : Nat) : n / d ≤ divEven n d := by
  unfold divEven
  split
  · exact Nat.le_refl _
  · split <;> omega

/-- From 2¹⁰²⁴ on a quotient rounds to no finite double. -/
theorem le_nearestMagnitude {n d k : Nat} (hd : 0 < d) (hk : 1024 ≤ k) (h : d * 2 ^ k ≤ n) :
    0x7FF0000000000000 ≤ nearestMagnitude n d := by
  have hexp : unitExponent = 1074 := by rw [unitExponent]
  have hu : 2 ^ (k + unitExponent) ≤ n * unitsInOne / d := by
    rw [Nat.le_div_iff_mul_le hd, Nat.pow_add, Nat.mul_comm, ← Nat.mul_assoc]
    exact Nat.mul_le_mul_right _ h
  have hne : n * unitsInOne / d ≠ 0 := (Nat.lt_of_lt_of_le (Nat.two_pow_pos _) hu).ne'
  have hlog : k + unitExponent ≤ (n * unitsInOne / d).log2 := (Nat.le_log2 hne).2 hu
  have hsig : binade ≤ divEven (n * unitsInOne) (d * 2 ^ ((n * unitsInOne / d).log2 - 52)) := by
    refine Nat.le_trans ?_ (div_le_divEven _ _)
    rw [← Nat.div_div_eq_div_mul, Nat.le_div_iff_mul_le (Nat.two_pow_pos _)]
    have hbinade : binade = 2 ^ 52 := rfl
    calc binade * 2 ^ ((n * unitsInOne / d).log2 - 52)
        = 2 ^ (52 + ((n * unitsInOne / d).log2 - 52)) := by rw [Nat.pow_add, hbinade]
      _ = 2 ^ (n * unitsInOne / d).log2 := by rw [Nat.add_sub_cancel' (by omega)]
      _ ≤ n * unitsInOne / d := Nat.log2_self_le hne
  simp only [nearestMagnitude, Nat.pow_eq, binade] at hsig ⊢
  omega

/-- Below half a unit a quotient rounds to zero. -/
theorem nearestMagnitude_eq_zero {n d : Nat} (h : 2 * (n * unitsInOne) < d) :
    nearestMagnitude n d = 0 := by
  have hquot : n * unitsInOne / d = 0 := Nat.div_eq_of_lt (by omega)
  have hmod : n * unitsInOne % d = n * unitsInOne := Nat.mod_eq_of_lt (by omega)
  simp [nearestMagnitude, hquot, divEven, hmod, h]

end Binary64

namespace Decimal

open Binary64 (unitExponent unitsInOne)

/-- A coefficient has more decimal digits than a quarter of its binary ones. -/
theorem pow_ten_le {c : Nat} (hc : c ≠ 0) : 10 ^ (c.log2 / 4) ≤ c := by
  calc 10 ^ (c.log2 / 4) ≤ 16 ^ (c.log2 / 4) := Nat.pow_le_pow_left (by decide) _
    _ = 2 ^ (4 * (c.log2 / 4)) := by rw [Nat.pow_mul]
    _ ≤ 2 ^ c.log2 := Nat.pow_le_pow_right (by decide) (by omega)
    _ ≤ c := Nat.log2_self_le hc

/-- A coefficient has no more decimal digits than a third of its binary ones, rounded up. -/
theorem lt_pow_ten (c : Nat) : c < 10 ^ (c.log2 / 3 + 1) := by
  calc c < 2 ^ (c.log2 + 1) := Nat.lt_log2_self
    _ ≤ 2 ^ (3 * (c.log2 / 3 + 1)) := Nat.pow_le_pow_right (by decide) (by omega)
    _ = 8 ^ (c.log2 / 3 + 1) := by rw [Nat.pow_mul]
    _ ≤ 10 ^ (c.log2 / 3 + 1) := Nat.pow_le_pow_left (by decide) _

theorem two_pow_le_ten_pow (k : Nat) : 2 ^ (33 * k) ≤ 10 ^ (10 * k) := by
  rw [Nat.pow_mul, Nat.pow_mul]
  exact Nat.pow_le_pow_left (by decide) k

theorem two_pow_succ_le_ten_pow (k : Nat) : 2 ^ (33 * k + 1) ≤ 10 ^ (10 * k + 1) := by
  rw [Nat.pow_succ, Nat.pow_succ]
  exact Nat.mul_le_mul (two_pow_le_ten_pow k) (by decide)

/-- **A decimal reads as the double nearest to its value**, however large or small that is. -/
theorem nearest?_eq_ofRatio? (d : Decimal) :
    d.nearest? = Binary64.ofRatio? d.negative d.numerator d.denominator := by
  have hzero : Binary64.nearestMagnitude d.numerator d.denominator = 0 →
      Binary64.ofRatio? d.negative d.numerator d.denominator = some (.zero d.negative) := by
    intro h
    simp [Binary64.ofRatio?, h, Binary64.zero]
  -- the two powers of ten that bound the range are kept from being computed
  obtain ⟨k, hk⟩ : ∃ k, k = 31 := ⟨31, rfl⟩
  unfold nearest?
  split
  · next hc =>
    refine (hzero (Binary64.nearestMagnitude_eq_zero ?_)).symm
    simpa [numerator, hc] using d.denominator_pos
  next hc =>
  split
  · next hlarge =>
    have hbig : 0x7FF0000000000000 ≤ Binary64.nearestMagnitude d.numerator d.denominator := by
      refine Binary64.le_nearestMagnitude d.denominator_pos (k := 33 * k + 1) (by omega) ?_
      calc d.denominator * 2 ^ (33 * k + 1)
          ≤ 10 ^ (-d.place).toNat * 10 ^ (10 * k + 1) :=
            Nat.mul_le_mul_left _ (two_pow_succ_le_ten_pow k)
        _ = 10 ^ ((-d.place).toNat + (10 * k + 1)) := (Nat.pow_add ..).symm
        _ ≤ 10 ^ (d.coefficient.log2 / 4 + d.place.toNat) :=
            Nat.pow_le_pow_right (by decide) (by omega)
        _ = 10 ^ (d.coefficient.log2 / 4) * 10 ^ d.place.toNat := Nat.pow_add ..
        _ ≤ d.numerator := Nat.mul_le_mul_right _ (pow_ten_le hc)
    simp only [Binary64.ofRatio?]
    rw [dif_neg (by omega)]
  next =>
  split
  · next hsmall =>
    refine (hzero (Binary64.nearestMagnitude_eq_zero ?_)).symm
    have hexp : unitExponent = 1074 := by rw [unitExponent]
    have hone : d.place.toNat = 0 := by omega
    calc 2 * (d.numerator * unitsInOne)
        = d.coefficient * 2 ^ (unitExponent + 1) := by
            simp only [numerator, unitsInOne, hone, Nat.pow_eq, Nat.pow_zero, Nat.pow_succ]
            ring
      _ ≤ d.coefficient * 2 ^ (33 * (k + 2)) :=
            Nat.mul_le_mul_left _ (Nat.pow_le_pow_right (by decide) (by omega))
      _ < 10 ^ (d.coefficient.log2 / 3 + 1) * 10 ^ (10 * (k + 2)) :=
            Nat.mul_lt_mul_of_lt_of_le (lt_pow_ten _) (two_pow_le_ten_pow _) (by positivity)
      _ = 10 ^ (d.coefficient.log2 / 3 + 1 + 10 * (k + 2)) := (Nat.pow_add ..).symm
      _ ≤ d.denominator := Nat.pow_le_pow_right (by decide) (by omega)
  · rfl

/-- Decimals of equal value read alike. -/
theorem nearest?_congr {d e : Decimal} (hneg : d.negative = e.negative)
    (h : d.numerator * e.denominator = e.numerator * d.denominator) : d.nearest? = e.nearest? := by
  rw [nearest?_eq_ofRatio?, nearest?_eq_ofRatio?, hneg]
  simp only [Binary64.ofRatio?,
    Binary64.nearestMagnitude_congr d.denominator_pos e.denominator_pos h]

/-- What a decimal reads as, by sign and magnitude. -/
theorem nearest?_eq_some_iff {d : Decimal} {x : Binary64} :
    d.nearest? = some x ↔ d.negative = x.negative
      ∧ Binary64.nearestMagnitude d.numerator d.denominator = x.magnitude := by
  obtain ⟨negative, magnitude, finite⟩ := x
  rw [nearest?_eq_ofRatio?, Binary64.ofRatio?]
  split
  · simp
  · next hlarge =>
    refine iff_of_false (by simp) ?_
    rintro ⟨-, rfl⟩
    exact hlarge finite

end Decimal

/-! ### Shortest decimals -/

namespace Binary64

variable {tie : Tie} {x : Binary64}

/-- At the last power of ten the multiple below a double is the double itself. -/
theorem readsBack_lowerAt : ReadsBack x (-unitExponent) (x.lowerAt (-unitExponent)) := by
  have hnone : (-(unitExponent : Int)).toNat = 0 := by omega
  have hall : (- -(unitExponent : Int)).toNat = unitExponent := by omega
  have hten : Nat.pow 10 unitExponent = 5 ^ unitExponent * unitsInOne :=
    Nat.mul_pow 5 2 unitExponent
  have hlower : x.lowerAt (-unitExponent) = x.units * 5 ^ unitExponent := by
    simp only [lowerAt, ratioAt, hnone, hall, hten, Nat.pow_eq, Nat.pow_zero, Nat.mul_one]
    rw [← Nat.mul_assoc, Nat.mul_div_cancel _ unitsInOne_pos]
  refine Decimal.nearest?_eq_some_iff.2 ⟨rfl, ?_⟩
  rw [← nearestMagnitude_units x]
  refine nearestMagnitude_congr (Decimal.denominator_pos _) unitsInOne_pos ?_
  simp only [Decimal.numerator, Decimal.denominator, decimalAt, hnone, hall, hlower, hten]
  simp only [Nat.pow_eq, Nat.pow_zero, Nat.mul_one, Nat.mul_assoc]

theorem nearest?_searchFrom {steps : Nat} {place : Int} (h : place = steps - unitExponent) :
    (searchFrom tie x steps place).nearest? = some x := by
  induction steps generalizing place with
  | zero =>
    obtain rfl : place = -unitExponent := by omega
    exact readsBack_lowerAt
  | succ steps ih =>
    rw [searchFrom]
    cases hhit : hitAt? tie x place with
    | some coefficient => exact readsBack_of_hitAt? hhit
    | none => exact ih (by omega)

/-- **The shortest decimal of a double reads as that double.** -/
theorem nearest?_shortest (tie : Tie) (x : Binary64) : (x.shortest tie).nearest? = some x := by
  unfold shortest
  split
  · next hzero =>
    obtain ⟨negative, magnitude, finite⟩ := x
    obtain rfl : magnitude = 0 := hzero
    rfl
  · exact nearest?_searchFrom (by omega)

end Binary64

end DocSearch
