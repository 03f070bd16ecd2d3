/-!
# Number — finite doubles

A finite double of IEEE 754 (binary64) is a sign and a magnitude below that of infinity, the
other 63 bits of its encoding read as one number.  Magnitudes are ordered as the values that they
stand for, so comparing two doubles is comparing integers (`Binary64.key`).

Every value is a whole number of units of 2⁻¹⁰⁷⁴, the smallest positive double: a magnitude
splits into a scale `s` and a significand `m`, and stands for m · 2ˢ units (`Binary64.units`).
Rounding a quotient to the nearest double, ties to the even significand, inverts this split
(`Binary64.nearestMagnitude`).  Numbers below 2⁶⁴ never round to an infinity
(`Binary64.nearestMagnitude_lt_of_lt`).
-/

namespace DocSearch

/-- A finite double: its sign, and its other bits as a number. -/
structure Binary64 where
  negative : Bool
  magnitude : Nat
  finite : magnitude < 0x7FF0000000000000
  deriving DecidableEq

namespace Binary64

/-! ### What a double stands for -/

/-- The number of magnitudes between two powers of two, 2⁵². -/
def binade : Nat := 0x10000000000000

/-- The exponent of the unit in which a magnitude counts its significand. -/
def scaleOf (magnitude : Nat) : Nat :=
  magnitude / binade - 1

/-- A magnitude's significand: below 2⁵³, and at least 2⁵² unless the scale is zero. -/
def significandOf (magnitude : Nat) : Nat :=
  magnitude - scaleOf magnitude * binade

/-- The absolute value of a double, as a number of units of 2⁻¹⁰⁷⁴. -/
def units (x : Binary64) : Nat :=
  significandOf x.magnitude * Nat.pow 2 (scaleOf x.magnitude)

/-- The unit is 2 to the minus this. -/
@[irreducible] def unitExponent : Nat := 1074

/-- The number of units in one. -/
def unitsInOne : Nat := Nat.pow 2 unitExponent

theorem unitsInOne_pos : 0 < unitsInOne :=
  Nat.two_pow_pos unitExponent

/-- The 64 bits of the encoding: the sign in front of the magnitude. -/
def bits (x : Binary64) : Nat :=
  (if x.negative then 0x8000000000000000 else 0) + x.magnitude

/-! ### Order -/

/-- The signed magnitude.  The two zeros share a key. -/
def key (x : Binary64) : Int :=
  if x.negative then -x.magnitude else x.magnitude

/-- The numeric order of two doubles. -/
def order (x y : Binary64) : Ordering :=
  compare x.key y.key

/-! ### Rounding -/

/-- A quotient rounded to the nearest whole number, a tie to the even one. -/
def divEven (n d : Nat) : Nat :=
  if 2 * (n % d) < d then n / d
  else if d < 2 * (n % d) then n / d + 1
  else n / d + n / d % 2

theorem divEven_le (n d : Nat) : divEven n d ≤ n / d + 1 := by
  unfold divEven
  split
  · omega
  · split <;> omega

/-- Rounding leaves a whole quotient alone. -/
theorem divEven_mul {d : Nat} (hd : 0 < d) (k : Nat) : divEven (k * d) d = k := by
  simp [divEven, hd]

/-- The magnitude nearest to the quotient `n / d`, a tie to the even significand.  It is a finite
double's if the quotient is below 2¹⁰²⁴ − 2⁹⁷⁰. -/
def nearestMagnitude (n d : Nat) : Nat :=
  let scale := (n * unitsInOne / d).log2 - 52
  scale * binade + divEven (n * unitsInOne) (d * Nat.pow 2 scale)

/-- A rounded significand is at most 2⁵³. -/
theorem nearestMagnitude_le (n d : Nat) :
    nearestMagnitude n d ≤ ((n * unitsInOne / d).log2 - 52 + 2) * binade := by
  unfold nearestMagnitude
  generalize hu : n * unitsInOne / d = u
  have hlt : n * unitsInOne / (d * 2 ^ (u.log2 - 52)) < 2 ^ 53 := by
    rw [← Nat.div_div_eq_div_mul, hu]
    apply Nat.div_lt_of_lt_mul
    have hlog : u < 2 ^ (u.log2 + 1) := by
      rcases Nat.eq_zero_or_pos u with rfl | h
      · simp
      · exact (Nat.log2_lt (by omega)).1 (by omega)
    calc u < 2 ^ (u.log2 + 1) := hlog
      _ ≤ 2 ^ (u.log2 - 52 + 53) := Nat.pow_le_pow_right (by omega) (by omega)
      _ = 2 ^ (u.log2 - 52) * 2 ^ 53 := Nat.pow_add ..
  have := divEven_le (n * unitsInOne) (d * 2 ^ (u.log2 - 52))
  simp only [binade, Nat.pow_eq]
  omega

/-- Whole numbers below 2⁶⁴ round to finite doubles. -/
theorem nearestMagnitude_lt_of_lt {n : Nat} (h : n < 0x10000000000000000) :
    nearestMagnitude n 1 < 0x7FF0000000000000 := by
  have hle := nearestMagnitude_le n 1
  have hlog : (n * unitsInOne / 1).log2 < 64 + unitExponent := by
    rw [Nat.div_one]
    rcases Nat.eq_zero_or_pos (n * unitsInOne) with h0 | h0
    · rw [h0, Nat.log2_zero]; omega
    · apply (Nat.log2_lt (by omega)).2
      calc n * unitsInOne < 2 ^ 64 * unitsInOne := Nat.mul_lt_mul_of_pos_right h unitsInOne_pos
        _ = 2 ^ (64 + unitExponent) := by rw [unitsInOne, Nat.pow_eq, Nat.pow_add]
  have hexp : unitExponent = 1074 := by rw [unitExponent]
  have hbinade : binade = 0x10000000000000 := rfl
  rw [hbinade] at hle
  omega

/-- The double of a given sign nearest to the quotient `n / d`, unless that is an infinity. -/
def ofRatio? (negative : Bool) (n d : Nat) : Option Binary64 :=
  if h : nearestMagnitude n d < 0x7FF0000000000000 then some ⟨negative, nearestMagnitude n d, h⟩
  else none

/-- The double nearest to an integer of at most 64 bits. -/
def ofInt (n : Int) (h : n.natAbs < 0x10000000000000000) : Binary64 :=
  ⟨n < 0, nearestMagnitude n.natAbs 1, nearestMagnitude_lt_of_lt h⟩

/-- The zero of a given sign. -/
def zero (negative : Bool) : Binary64 :=
  ⟨negative, 0, by decide⟩

/-- One, a tie below 2⁵³ + 2, and the least quotient that rounds to an infinity. -/
example : (ofRatio? false 1 1).map bits = some 0x3FF0000000000000
    ∧ (ofRatio? true (2 ^ 53 + 1) 1).map bits = some 0xC340000000000000
    ∧ ofRatio? false (2 ^ 1024 - 2 ^ 970) 1 = none := by decide +kernel

end Binary64

end DocSearch
