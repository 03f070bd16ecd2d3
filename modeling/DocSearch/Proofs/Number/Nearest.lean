import DocSearch.Proofs.Number.Value
import Mathlib.Tactic.LinearCombination

/-!
# Numbers — correct rounding

Reading a decimal, and comparing an integer with a double, both go through the nearest double.  This
module says what that is in terms of values (`Binary64.IsNearest`): no other double is nearer, of two
equally near ones it is that with the even significand, and the number lies in front of the overflow.

* Rounding to a whole number is nearest, ties to even (`nearestEven_divEven`).  Rounding to a magnitude
  is that at a scale which suits the quotient: the magnitudes at it and above are multiples of its unit,
  and those below it are too far away to matter (`nearestEven_nearestMagnitude`).
* A quotient rounds to a finite double exactly if it is less than the middle between the largest one and
  2¹⁰²⁴ (`nearestMagnitude_lt_iff`).
* So a decimal reads as the nearest double with its sign (`Decimal.nearest?_eq_some_iff_isNearest`), and
  the double of a number is the nearest to it (`Number.isNearest`).  There is only one, up to the sign of
  zero (`IsNearest.key_unique`), and it moves with the number (`IsNearest.mono`).
-/

namespace DocSearch

/-- Of the values of a function that at `m` is the nearest to `t`, and `m` is even if another is
equally near. -/
structure NearestEven (f : ℕ → ℚ) (t : ℚ) (m : ℕ) : Prop where
  nearest : ∀ k, |t - f m| ≤ |t - f k|
  even : ∀ k, k ≠ m → |t - f m| = |t - f k| → Even m

namespace Binary64

variable {n d : Nat}

/-! ### Rounding to a whole number -/

/-- A quotient is rounded by half at most, and by half only to an even number. -/
theorem abs_sub_divEven (hd : 0 < d) (n : Nat) :
    |(n / d : ℚ) - divEven n d| ≤ 1 / 2
    ∧ (|(n / d : ℚ) - divEven n d| = 1 / 2 → Even (divEven n d)) := by
  have hpos : (0 : ℚ) < d := by exact_mod_cast hd
  have hsplit : (n / d : ℚ) = (n / d : ℕ) + (n % d : ℕ) / d := by
    have hsum : (d : ℚ) * (n / d : ℕ) + (n % d : ℕ) = n := by exact_mod_cast Nat.div_add_mod n d
    rw [← hsum, add_div, mul_div_cancel_left₀ _ hpos.ne']
  have hlt : ((n % d : ℕ) / d : ℚ) < 1 := by
    rw [div_lt_one hpos]
    exact_mod_cast Nat.mod_lt n hd
  have hnonneg : (0 : ℚ) ≤ (n % d : ℕ) / d := by positivity
  have hhalf : ((n % d : ℕ) / d : ℚ) < 1 / 2 ↔ 2 * (n % d) < d := by
    rw [div_lt_div_iff₀ hpos two_pos]
    norm_cast
    omega
  have hhalf' : (1 / 2 : ℚ) < (n % d : ℕ) / d ↔ d < 2 * (n % d) := by
    rw [div_lt_div_iff₀ two_pos hpos]
    norm_cast
    omega
  rw [hsplit]
  unfold divEven
  generalize ((n % d : ℕ) / d : ℚ) = r at hlt hnonneg hhalf hhalf' ⊢
  split
  · next h =>
    have hr := hhalf.2 h
    rw [add_sub_cancel_left, abs_of_nonneg hnonneg]
    exact ⟨hr.le, fun he => absurd he hr.ne⟩
  · next h =>
    split
    · next h' =>
      have hr := hhalf'.2 h'
      rw [Nat.cast_add, Nat.cast_one, add_sub_add_left_eq_sub, abs_sub_comm,
        abs_of_nonneg (by linarith)]
      exact ⟨by linarith, fun he => by linarith⟩
    · next h' =>
      have hr : r = 1 / 2 := le_antisymm (not_lt.1 fun hc => h' (hhalf'.1 hc))
        (not_lt.1 fun hc => h (hhalf.1 hc))
      have heven : Even (n / d + n / d % 2) := by
        rw [Nat.even_iff]
        omega
      refine ⟨?_, fun _ => heven⟩
      rw [Nat.cast_add, add_sub_add_left_eq_sub, hr, abs_le]
      rcases Nat.mod_two_eq_zero_or_one (n / d) with h0 | h1
      · rw [h0]
        norm_num
      · rw [h1]
        norm_num

/-- A quotient is rounded to the nearest whole number, a tie to the even one. -/
theorem nearestEven_divEven (hd : 0 < d) (n : Nat) :
    NearestEven (fun k => k) (n / d) (divEven n d) := by
  obtain ⟨hle, heven⟩ := abs_sub_divEven hd n
  have hfar : ∀ k, k ≠ divEven n d → 1 / 2 ≤ |(n / d : ℚ) - k| := by
    intro k hk
    have hone : (1 : ℚ) ≤ |(k : ℚ) - divEven n d| := by
      have : (1 : ℤ) ≤ |(k : ℤ) - divEven n d| := Int.one_le_abs (by omega)
      exact_mod_cast this
    have htri := abs_sub_le (k : ℚ) (n / d) (divEven n d)
    rw [abs_sub_comm (k : ℚ) (n / d)] at htri
    linarith
  refine ⟨fun k => ?_, fun k hk heq => ?_⟩
  · by_cases hk : k = divEven n d
    · rw [hk]
    · exact hle.trans (hfar k hk)
  · exact heven (le_antisymm hle (heq ▸ hfar k hk))

/-! ### Rounding to a magnitude -/

theorem binade_mul_pow (scale : Nat) : binade * 2 ^ scale = 2 ^ (52 + scale) := by
  have hbinade : binade = 2 ^ 52 := rfl
  rw [hbinade, Nat.pow_add]

/-- Rounding takes place at a scale where the quotient has as many digits as a significand, or at
the lowest. -/
theorem exists_nearestMagnitude (hd : 0 < d) (n : Nat) :
    ∃ scale significand, significand = divEven (n * unitsInOne) (d * 2 ^ scale)
      ∧ nearestMagnitude n d = scale * binade + significand ∧ significand ≤ 2 * binade
      ∧ (scale = 0 ∨ binade ≤ significand ∧ binade * 2 ^ scale * d ≤ n * unitsInOne) := by
  refine ⟨(n * unitsInOne / d).log2 - 52, _, rfl, rfl, ?_, ?_⟩
  · have hle := divEven_le (n * unitsInOne) (d * 2 ^ ((n * unitsInOne / d).log2 - 52))
    have hquot : n * unitsInOne / (d * 2 ^ ((n * unitsInOne / d).log2 - 52)) < 2 * binade := by
      rw [← Nat.div_div_eq_div_mul]
      apply Nat.div_lt_of_lt_mul
      calc n * unitsInOne / d < 2 ^ ((n * unitsInOne / d).log2 + 1) := Nat.lt_log2_self
        _ ≤ 2 ^ (52 + ((n * unitsInOne / d).log2 - 52) + 1) :=
          Nat.pow_le_pow_right two_pos (by omega)
        _ = 2 ^ ((n * unitsInOne / d).log2 - 52) * (2 * binade) := by
          rw [Nat.pow_succ, ← binade_mul_pow]
          ring
    omega
  · by_cases hlog : (n * unitsInOne / d).log2 ≤ 52
    · exact .inl (Nat.sub_eq_zero_of_le hlog)
    have hne : n * unitsInOne / d ≠ 0 := by
      intro h
      rw [h, Nat.log2_zero] at hlog
      omega
    have hle : binade * 2 ^ ((n * unitsInOne / d).log2 - 52) * d ≤ n * unitsInOne := by
      rw [binade_mul_pow, Nat.add_sub_cancel' (by omega), ← Nat.le_div_iff_mul_le hd]
      exact Nat.log2_self_le hne
    refine .inr ⟨le_trans ?_ (div_le_divEven _ _), hle⟩
    rw [Nat.le_div_iff_mul_le (by positivity), Nat.mul_comm d, ← Nat.mul_assoc]
    exact hle

/-- At a scale or above it all magnitudes are multiples of the scale's unit. -/
theorem unitsOf_eq_mul {scale k : Nat} (h : scale ≤ scaleOf k) :
    unitsOf k = significandOf k * 2 ^ (scaleOf k - scale) * 2 ^ scale := by
  rw [unitsOf, Nat.mul_assoc, ← Nat.pow_add, Nat.sub_add_cancel h]

/-- Below a scale all magnitudes are smaller than those at it. -/
theorem unitsOf_lt {scale k : Nat} (h : scaleOf k < scale) : unitsOf k < binade * 2 ^ scale := by
  rw [← unitsOf_eq (Nat.le_mul_of_pos_left _ two_pos) (.inr (Nat.le_refl _))]
  apply unitsOf_strictMono
  unfold scaleOf at h
  simp only [binade] at *
  omega

/-- The distance to a multiple of a scale's unit is measured in this unit. -/
theorem abs_sub_mul_two_pow (units d j scale : Nat) :
    |(units / d : ℚ) - (j * 2 ^ scale : ℕ)|
      = |(units / (d * 2 ^ scale : ℕ) : ℚ) - j| * 2 ^ scale := by
  have hpow : (0 : ℚ) < 2 ^ scale := by positivity
  rw [← abs_of_pos hpow, ← abs_mul]
  push_cast
  rw [sub_mul, ← div_div, div_mul_cancel₀ _ hpow.ne']

/-- A quotient of units is rounded to the nearest magnitude, a tie to the even one. -/
theorem nearestEven_nearestMagnitude (hd : 0 < d) (n : Nat) :
    NearestEven (fun k => unitsOf k) ((n * unitsInOne : ℕ) / d) (nearestMagnitude n d) := by
  obtain ⟨scale, significand, hsig, hmag, hle, hscale⟩ := exists_nearestMagnitude hd n
  generalize n * unitsInOne = units at hsig hscale ⊢
  have hpow : (0 : ℚ) < 2 ^ scale := by positivity
  have hunits : unitsOf (nearestMagnitude n d) = significand * 2 ^ scale := by
    rw [hmag, unitsOf_eq hle (hscale.imp_right And.left)]
  -- among the multiples of the scale's unit this is rounding to a whole number
  have hwhole : NearestEven (fun k => k) (units / (d * 2 ^ scale : ℕ)) significand :=
    hsig ▸ nearestEven_divEven (by positivity) units
  -- and the magnitudes that are no such multiples lie below all of those that matter
  have hnear : ∀ j : ℕ, |(units / d : ℚ) - unitsOf (nearestMagnitude n d)|
      ≤ |(units / d : ℚ) - (j * 2 ^ scale : ℕ)| := by
    intro j
    rw [hunits, abs_sub_mul_two_pow, abs_sub_mul_two_pow]
    exact mul_le_mul_of_nonneg_right (hwhole.nearest j) hpow.le
  have hbelow : ∀ k, scaleOf k < scale →
      |(units / d : ℚ) - unitsOf (nearestMagnitude n d)| < |(units / d : ℚ) - unitsOf k| := by
    intro k hk
    have hlt : (unitsOf k : ℚ) < (binade * 2 ^ scale : ℕ) := by exact_mod_cast unitsOf_lt hk
    have hge : ((binade * 2 ^ scale : ℕ) : ℚ) ≤ units / d := by
      rw [le_div_iff₀ (by exact_mod_cast hd)]
      exact_mod_cast (hscale.resolve_left (by omega)).2
    refine (hnear binade).trans_lt ?_
    rw [abs_of_nonneg (by linarith), abs_of_nonneg (by linarith)]
    linarith
  refine ⟨fun k => ?_, fun k hne heq => ?_⟩
  · rcases Nat.lt_or_ge (scaleOf k) scale with hk | hk
    · exact (hbelow k hk).le
    · rw [unitsOf_eq_mul hk]
      exact hnear _
  · rcases Nat.lt_or_ge (scaleOf k) scale with hk | hk
    · exact absurd heq (hbelow k hk).ne
    · rw [hunits, unitsOf_eq_mul hk, abs_sub_mul_two_pow, abs_sub_mul_two_pow] at heq
      have hother : significandOf k * 2 ^ (scaleOf k - scale) ≠ significand := by
        intro h
        apply hne
        apply unitsOf_strictMono.injective
        rw [hunits, unitsOf_eq_mul hk, h]
      have heven := hwhole.even _ hother (mul_right_cancel₀ hpow.ne' heq)
      rw [hmag, Nat.even_add]
      exact iff_of_true (Even.mul_left (by decide) _) heven

/-! ### Overflow -/

/-- Halfway between the largest double and 2¹⁰²⁴.  From there on a number rounds to an infinity. -/
def overflow : ℚ :=
  2 ^ 1024 - 2 ^ 970

theorem unitsOf_infinity_add :
    (unitsOf 0x7FF0000000000000 + unitsOf 0x7FEFFFFFFFFFFFFF : ℚ) = 2 * overflow * unitsInOne := by
  -- the scale of the largest double is kept from being evaluated
  obtain ⟨scale, hscale⟩ : ∃ scale, scale = 2045 := ⟨2045, rfl⟩
  have hinfinity : unitsOf 0x7FF0000000000000 = binade * 2 ^ (scale + 1) := by
    rw [← unitsOf_eq (Nat.le_mul_of_pos_left _ two_pos) (.inr (Nat.le_refl _)), hscale]
    rfl
  have hlargest : unitsOf 0x7FEFFFFFFFFFFFFF = (2 * binade - 1) * 2 ^ scale := by
    rw [← unitsOf_eq (Nat.sub_le _ _) (.inr (by decide)), hscale]
    rfl
  have hexponent : unitExponent = 1074 := by rw [unitExponent]
  have hpow : (unitsInOne : ℚ) = 2 ^ unitExponent := by exact_mod_cast rfl
  have hupper : (2 : ℚ) ^ 1024 * unitsInOne = 2 ^ 53 * 2 ^ scale := by
    have hsum : 1024 + unitExponent = 53 + scale := by omega
    rw [hpow, ← pow_add, hsum, pow_add]
  have hlower : (2 : ℚ) ^ 970 * unitsInOne * 2 = 2 ^ scale := by
    have hsum : 970 + unitExponent + 1 = scale := by omega
    rw [hpow, ← pow_add, ← pow_succ, hsum]
  have hbinade : (binade : ℚ) = 2 ^ 52 := by norm_num [binade]
  have hlast : ((2 * binade - 1 : ℕ) : ℚ) = 2 ^ 53 - 1 := by norm_num [binade]
  rw [hinfinity, hlargest, overflow]
  push_cast [hlast, hbinade]
  generalize (2 : ℚ) ^ 1024 = upper, (2 : ℚ) ^ 970 = lower at hupper hlower ⊢
  linear_combination -2 * hupper + hlower

theorem abs_sub_le_left_iff {a b t : ℚ} (h : a < b) : |t - a| ≤ |t - b| ↔ 2 * t ≤ a + b := by
  rw [← sq_le_sq]
  constructor
  · intro hle
    nlinarith
  · intro hle
    nlinarith

theorem abs_sub_le_right_iff {a b t : ℚ} (h : a < b) : |t - b| ≤ |t - a| ↔ a + b ≤ 2 * t := by
  rw [← sq_le_sq]
  constructor
  · intro hle
    nlinarith
  · intro hle
    nlinarith

/-- A quotient rounds to a finite double if it lies in front of the overflow, and only then. -/
theorem nearestMagnitude_lt_iff (hd : 0 < d) (n : Nat) :
    nearestMagnitude n d < 0x7FF0000000000000 ↔ (n / d : ℚ) < overflow := by
  have hnearest := nearestEven_nearestMagnitude hd n
  have hone : (0 : ℚ) < unitsInOne := by exact_mod_cast unitsInOne_pos
  have hmid : ((n * unitsInOne : ℕ) / d : ℚ) < overflow * unitsInOne ↔ (n / d : ℚ) < overflow := by
    push_cast
    rw [mul_div_right_comm, mul_lt_mul_iff_left₀ hone]
  have hsum := unitsOf_infinity_add
  have hlargest : (unitsOf 0x7FEFFFFFFFFFFFFF : ℚ) < unitsOf 0x7FF0000000000000 := by
    exact_mod_cast unitsOf_strictMono (by decide)
  rw [← hmid]
  generalize ((n * unitsInOne : ℕ) / d : ℚ) = t at hnearest
  generalize nearestMagnitude n d = m at hnearest ⊢
  constructor
  · intro hm
    -- not even at the middle: there the largest double, which is odd, would give way
    have hle : (unitsOf m : ℚ) ≤ unitsOf 0x7FEFFFFFFFFFFFFF := by
      exact_mod_cast unitsOf_strictMono.monotone (by omega)
    have hfar := hnearest.nearest 0x7FF0000000000000
    rw [abs_sub_le_left_iff (hle.trans_lt hlargest)] at hfar
    refine lt_of_le_of_ne (by linarith) fun ht => ?_
    have heq : unitsOf m = unitsOf 0x7FEFFFFFFFFFFFFF := by
      have : (unitsOf m : ℚ) = unitsOf 0x7FEFFFFFFFFFFFFF := by linarith
      exact_mod_cast this
    obtain rfl := unitsOf_strictMono.injective heq
    have htie : |t - unitsOf 0x7FEFFFFFFFFFFFFF| = |t - unitsOf 0x7FF0000000000000| := by
      refine le_antisymm (hnearest.nearest _) ((abs_sub_le_right_iff hlargest).2 ?_)
      linarith
    have heven := hnearest.even 0x7FF0000000000000 (by decide) htie
    exact absurd heven (by decide)
  · intro ht
    by_contra hm
    have hge : (unitsOf 0x7FF0000000000000 : ℚ) ≤ unitsOf m := by
      exact_mod_cast unitsOf_strictMono.monotone (not_lt.1 hm)
    have hfar := hnearest.nearest 0x7FEFFFFFFFFFFFFF
    rw [abs_sub_le_right_iff (hlargest.trans_le hge)] at hfar
    linarith

/-! ### The nearest double -/

/-- A double is the nearest to a number: none is nearer, of two equally near ones it is that with
the even significand, and the number does not round to an infinity. -/
structure IsNearest (q : ℚ) (x : Binary64) : Prop where
  inRange : |q| < overflow
  nearest : ∀ y : Binary64, |q - x.toRat| ≤ |q - y.toRat|
  even : ∀ y : Binary64, y.toRat ≠ x.toRat → |q - x.toRat| = |q - y.toRat| → Even x.magnitude

theorem abs_sub_div_unitsInOne (n d magnitude : Nat) :
    |(n / d : ℚ) - unitsOf magnitude / unitsInOne|
      = |((n * unitsInOne : ℕ) / d : ℚ) - unitsOf magnitude| / unitsInOne := by
  have hone : (0 : ℚ) < unitsInOne := by exact_mod_cast unitsInOne_pos
  rw [← abs_of_pos hone, ← abs_div, abs_of_pos hone]
  push_cast
  rw [sub_div, mul_div_right_comm, mul_div_cancel_right₀ _ hone.ne']

variable {q r : ℚ} {x y : Binary64}

/-- Only zero is as near to a number as to the opposite one. -/
theorem eq_zero_of_abs_sub_eq {a : ℚ} (ha : a ≠ 0) (h : |q - a| = |q - -a|) : q = 0 := by
  have hsq := (sq_eq_sq_iff_abs_eq_abs _ _).2 h
  refine (mul_eq_zero.1 ?_).resolve_right ha
  linear_combination -hsq / 4

/-- What a quotient rounds to is the nearest double of its sign. -/
theorem isNearest_of_nearestMagnitude (hd : 0 < d) (hx : nearestMagnitude n d = x.magnitude) :
    IsNearest (signOf x.negative * (n / d)) x := by
  have hnearest := hx ▸ nearestEven_nearestMagnitude hd n
  have hone : (0 : ℚ) < unitsInOne := by exact_mod_cast unitsInOne_pos
  have hself : |signOf x.negative * (n / d) - x.toRat|
      = |((n * unitsInOne : ℕ) / d : ℚ) - unitsOf x.magnitude| / unitsInOne := by
    rw [toRat, abs_signOf_mul_sub, ← abs_sub_div_unitsInOne]
    rfl
  have hother : ∀ y : Binary64,
      |((n * unitsInOne : ℕ) / d : ℚ) - unitsOf y.magnitude| / unitsInOne
        ≤ |signOf x.negative * (n / d) - y.toRat| := by
    intro y
    have htri := abs_abs_sub_abs_le (signOf x.negative * (n / d)) y.toRat
    rwa [abs_signOf_mul, abs_toRat, abs_of_nonneg (by positivity : (0 : ℚ) ≤ n / d),
      abs_sub_div_unitsInOne] at htri
  have hnear : ∀ y : Binary64,
      |signOf x.negative * (n / d) - x.toRat| ≤ |signOf x.negative * (n / d) - y.toRat| := by
    intro y
    rw [hself]
    exact (div_le_div_of_nonneg_right (hnearest.nearest _) hone.le).trans (hother y)
  refine ⟨?_, hnear, fun y hne heq => ?_⟩
  · rw [abs_signOf_mul, abs_of_nonneg (by positivity), ← nearestMagnitude_lt_iff hd, hx]
    exact x.finite
  · by_cases hmag : y.magnitude = x.magnitude
    · -- the other double of this magnitude is as near only to zero, and zero is nearer to that
      have hneg := toRat_eq_neg hmag hne
      have hx0 : x.toRat ≠ 0 := fun h => hne (by rw [hneg, h, neg_zero])
      have hq := eq_zero_of_abs_sub_eq hx0 (hneg ▸ heq)
      have hzero := hnear (zero false)
      rw [hq, toRat_zero, sub_self, abs_zero, abs_nonpos_iff, zero_sub, neg_eq_zero] at hzero
      exact absurd hzero hx0
    · refine hnearest.even y.magnitude hmag (le_antisymm (hnearest.nearest _) ?_)
      have hle := hother y
      rw [← heq, hself] at hle
      exact (div_le_div_iff_of_pos_right hone).1 hle

/-- The doubles have all keys up to that of infinity. -/
theorem exists_key {key : ℤ} (h : key.natAbs < 0x7FF0000000000000) :
    ∃ z : Binary64, z.key = key := by
  refine ⟨⟨key < 0, key.natAbs, h⟩, ?_⟩
  simp only [Binary64.key, decide_eq_true_eq]
  split <;> omega

theorem natAbs_key (x : Binary64) : x.key.natAbs = x.magnitude := by
  unfold key
  split <;> omega

namespace IsNearest

/-- Two doubles do not both stand next to a number. -/
theorem key_le (hx : IsNearest q x) (hy : IsNearest q y) : x.key ≤ y.key := by
  by_contra hlt
  have hrat : y.toRat < x.toRat := toRat_lt_toRat_iff.2 (not_le.1 hlt)
  have hdist : |q - x.toRat| = |q - y.toRat| := le_antisymm (hx.nearest y) (hy.nearest x)
  have hmid : 2 * q = y.toRat + x.toRat :=
    le_antisymm ((abs_sub_le_left_iff hrat).1 hdist.ge) ((abs_sub_le_right_iff hrat).1 hdist.le)
  -- both magnitudes are even, so there is a double between
  have hxeven := hx.even y hrat.ne hdist
  have hyeven := hy.even x hrat.ne' hdist.symm
  rw [← natAbs_key, Int.natAbs_even] at hxeven hyeven
  have hgap : y.key + 1 < x.key := by
    rw [Int.even_iff] at hxeven hyeven
    omega
  obtain ⟨z, hz⟩ : ∃ z : Binary64, z.key = y.key + 1 := by
    apply exists_key
    have hxfinite := x.finite
    have hyfinite := y.finite
    rw [← natAbs_key] at hxfinite hyfinite
    omega
  have hyz : y.toRat < z.toRat := toRat_lt_toRat_iff.2 (by omega)
  have hzx : z.toRat < x.toRat := toRat_lt_toRat_iff.2 (by omega)
  have := (abs_sub_le_left_iff hyz).1 (hy.nearest z)
  linarith

theorem key_unique (hx : IsNearest q x) (hy : IsNearest q y) : x.key = y.key :=
  le_antisymm (hx.key_le hy) (hy.key_le hx)

/-- Rounding keeps the order. -/
theorem mono (hx : IsNearest q x) (hy : IsNearest r y) (h : q ≤ r) : x.toRat ≤ y.toRat := by
  by_contra hlt
  have hrat := not_le.1 hlt
  have hq := (abs_sub_le_right_iff hrat).1 (hx.nearest y)
  have hr := (abs_sub_le_left_iff hrat).1 (hy.nearest x)
  obtain rfl : q = r := by linarith
  exact hlt (toRat_eq_toRat_iff.2 (hx.key_unique hy)).le

theorem lt_of_toRat_lt (hx : IsNearest q x) (hy : IsNearest r y) (h : x.toRat < y.toRat) :
    q < r :=
  not_le.1 fun hle => (hy.mono hx hle).not_gt h

/-- What is a double already stays as it is. -/
theorem toRat_eq_self (hx : IsNearest q x) (hy : y.toRat = q) : x.toRat = q := by
  have hle := hx.nearest y
  rw [hy, sub_self, abs_zero, abs_nonpos_iff] at hle
  exact (sub_eq_zero.1 hle).symm

end IsNearest

/-- The whole numbers up to 2⁵³ are doubles. -/
theorem exists_toRat_eq_intCast {i : ℤ} (h : |i| ≤ 2 ^ 53) : ∃ x : Binary64, x.toRat = i := by
  have hle : i.natAbs ≤ 2 * binade := by
    rw [Int.abs_eq_natAbs] at h
    simp only [binade]
    omega
  obtain ⟨m, hm, hunits⟩ := exists_unitsOf_eq hle unitExponent
  obtain ⟨key, hmagnitude, hkey⟩ : ∃ key : ℤ, key.natAbs = m ∧ unitsOfKey key = i * unitsInOne := by
    have hunits' : (unitsOf m : ℤ) = i.natAbs * unitsInOne := by exact_mod_cast hunits
    obtain ⟨n, rfl | rfl⟩ := i.eq_nat_or_neg
    · exact ⟨m, Int.natAbs_natCast m, by rw [unitsOfKey_natCast, hunits', Int.natAbs_natCast]⟩
    · refine ⟨-m, by rw [Int.natAbs_neg, Int.natAbs_natCast], ?_⟩
      rw [unitsOfKey_neg, unitsOfKey_natCast, hunits', Int.natAbs_neg, Int.natAbs_natCast,
        Int.neg_mul]
  have hfinite : key.natAbs < 0x7FF0000000000000 := by
    have hexponent : unitExponent = 1074 := by rw [unitExponent]
    rw [hexponent] at hm
    simp only [binade] at hm
    omega
  obtain ⟨x, hx⟩ := exists_key hfinite
  have hone : (unitsInOne : ℚ) ≠ 0 := by exact_mod_cast unitsInOne_pos.ne'
  refine ⟨x, ?_⟩
  rw [toRat_eq, hx, hkey, Int.cast_mul, Int.cast_natCast, mul_div_cancel_right₀ _ hone]

/-- A double is the nearest of its sign to a quotient if that rounds to it, and only then. -/
theorem isNearest_iff (hd : 0 < d) (n : Nat) :
    IsNearest (signOf x.negative * (n / d)) x ↔ nearestMagnitude n d = x.magnitude := by
  refine ⟨fun h => ?_, isNearest_of_nearestMagnitude hd⟩
  have hfinite : nearestMagnitude n d < 0x7FF0000000000000 := by
    rw [nearestMagnitude_lt_iff hd, ← abs_of_nonneg (by positivity : (0 : ℚ) ≤ n / d),
      ← abs_signOf_mul x.negative]
    exact h.inRange
  obtain ⟨y, hsign, hy⟩ : ∃ y : Binary64, y.negative = x.negative
      ∧ nearestMagnitude n d = y.magnitude := ⟨⟨x.negative, _, hfinite⟩, rfl, rfl⟩
  have hround := isNearest_of_nearestMagnitude hd hy
  rw [hsign] at hround
  rw [hy, ← natAbs_key y, hround.key_unique h, natAbs_key]

end Binary64

open Binary64 (IsNearest)

/-! ### Decimals and numbers -/

namespace Decimal

/-- The value of a decimal. -/
def toRat (d : Decimal) : ℚ :=
  signOf d.negative * (d.numerator / d.denominator)

/-- A decimal reads as the nearest double, with its sign. -/
theorem nearest?_eq_some_iff_isNearest {d : Decimal} {x : Binary64} :
    d.nearest? = some x ↔ x.negative = d.negative ∧ IsNearest d.toRat x := by
  rw [nearest?_eq_some_iff, eq_comm]
  refine and_congr_right fun hsign => ?_
  rw [toRat, ← hsign, Binary64.isNearest_iff d.denominator_pos]

/-- A decimal that does not overflow reads as a double. -/
theorem exists_nearest? {d : Decimal} (h : |d.toRat| < Binary64.overflow) :
    ∃ x, d.nearest? = some x := by
  have hfinite : Binary64.nearestMagnitude d.numerator d.denominator < 0x7FF0000000000000 := by
    rwa [Binary64.nearestMagnitude_lt_iff d.denominator_pos,
      ← abs_of_nonneg (by positivity : (0 : ℚ) ≤ d.numerator / d.denominator),
      ← abs_signOf_mul d.negative]
  exact ⟨⟨d.negative, _, hfinite⟩, nearest?_eq_some_iff.2 ⟨rfl, rfl⟩⟩

end Decimal

namespace Number

/-- **A number is compared by the double nearest to it.** -/
theorem isNearest (a : Number) : IsNearest a.toRat a.toBinary64 := by
  cases a with
  | int i =>
    have hvalue : (i.value : ℚ) = signOf (decide (i.value < 0)) * (i.value.natAbs / (1 : ℕ)) := by
      rcases lt_or_ge i.value 0 with h | h
      · rw [signOf, if_pos (decide_eq_true h), Nat.cast_one, div_one, Nat.cast_natAbs,
          abs_of_neg h, Int.cast_neg, neg_one_mul, neg_neg]
      · rw [signOf, if_neg (by simpa using h), Nat.cast_one, div_one, Nat.cast_natAbs,
          abs_of_nonneg h, one_mul]
    rw [toRat, hvalue]
    exact Binary64.isNearest_of_nearestMagnitude (x := (int i).toBinary64) Nat.one_pos rfl
  | float x =>
    have hvalue : x.toRat = signOf x.negative * ((x.units : ℕ) / (Binary64.unitsInOne : ℕ)) := rfl
    rw [toRat, hvalue]
    exact Binary64.isNearest_of_nearestMagnitude Binary64.unitsInOne_pos x.nearestMagnitude_units

/-- Going over to doubles keeps the order. -/
theorem toBinary64_mono {a b : Number} (h : a.toRat ≤ b.toRat) :
    a.toBinary64.toRat ≤ b.toBinary64.toRat :=
  a.isNearest.mono b.isNearest h

/-- And numbers that differ are in the same order as their doubles, if these differ. -/
theorem toBinary64_lt_iff {a b : Number}
    (h : a.toRat ≠ b.toRat → a.toBinary64.toRat ≠ b.toBinary64.toRat) :
    a.toBinary64.toRat < b.toBinary64.toRat ↔ a.toRat < b.toRat := by
  refine ⟨fun hlt => not_le.1 fun hle => absurd hlt (toBinary64_mono hle).not_gt, fun hlt => ?_⟩
  exact lt_of_le_of_ne (toBinary64_mono hlt.le) (h hlt.ne)

end Number

end DocSearch
