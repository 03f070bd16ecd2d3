import DocSearch.Number.Basic
import DocSearch.Proofs.Number.Rounding
import Mathlib.Algebra.Order.Field.Basic
import Mathlib.Algebra.Order.Field.Rat
import Mathlib.Order.Monotone.Odd
import Mathlib.Tactic.Positivity

/-!
# Numbers — the values they stand for

Every number of a document or a query is a rational: an integer is itself, and a double a signed
number of units of 2⁻¹⁰⁷⁴ (`Number.toRat`, `Binary64.toRat`).

Comparing two doubles is comparing their values (`Binary64.order_eq_lt_iff` and the two beside it).
What is compared are the keys, so this says that the value of a double grows with its key; and that
comes down to magnitudes (`Binary64.unitsOf_strictMono`), of which the next one has either the next
significand at the same scale or, where the significand has reached 2⁵³, half of it at the next.
-/

namespace DocSearch

/-- The factor that a sign stands for. -/
def signOf (negative : Bool) : ℚ :=
  if negative then -1 else 1

/-- A common sign does not change a distance. -/
theorem abs_signOf_mul_sub (negative : Bool) (a b : ℚ) :
    |signOf negative * a - signOf negative * b| = |a - b| := by
  cases negative with
  | false => simp [signOf]
  | true => simp [signOf, abs_sub_comm, neg_add_eq_sub]

theorem abs_signOf_mul (negative : Bool) (a : ℚ) : |signOf negative * a| = |a| := by
  simpa using abs_signOf_mul_sub negative a 0

namespace Binary64

/-! ### Magnitudes -/

/-- The units that a magnitude stands for.  That of infinity counts as 2¹⁰²⁴. -/
def unitsOf (magnitude : Nat) : Nat :=
  significandOf magnitude * 2 ^ scaleOf magnitude

/-- A significand of 2⁵³ is 2⁵² at the next scale. -/
theorem unitsOf_eq {scale significand : Nat} (hle : significand ≤ 2 * binade)
    (hscale : scale = 0 ∨ binade ≤ significand) :
    unitsOf (scale * binade + significand) = significand * 2 ^ scale := by
  rcases Nat.lt_or_eq_of_le hle with hlt | rfl
  · have hs : scaleOf (scale * binade + significand) = scale := by
      unfold scaleOf
      simp only [binade] at *
      omega
    rw [unitsOf, significandOf, hs, Nat.add_sub_cancel_left]
  · have hs : scaleOf (scale * binade + 2 * binade) = scale + 1 := by
      unfold scaleOf
      simp only [binade]
      omega
    have hsig : scale * binade + 2 * binade - (scale + 1) * binade = binade := by
      simp only [binade]
      omega
    rw [unitsOf, significandOf, hs, hsig, Nat.pow_succ]
    ring

theorem unitsOf_strictMono : StrictMono unitsOf := by
  refine strictMono_nat_of_lt_succ fun m => ?_
  obtain ⟨hlt, hge, hsum⟩ := significandOf_bounds m
  have hnext : m + 1 = scaleOf m * binade + (significandOf m + 1) := by omega
  rw [hnext, unitsOf_eq hlt (hge.imp_right Nat.le_succ_of_le), unitsOf]
  exact Nat.mul_lt_mul_of_pos_right (Nat.lt_succ_self _) (Nat.two_pow_pos _)

/-- A significand has its units at any scale: one below 2⁵² is doubled, and the scale lowered, for as
long as there is a lower one. -/
theorem exists_unitsOf_eq {significand : Nat} (hle : significand ≤ 2 * binade) (scale : Nat) :
    ∃ m, m ≤ (scale + 2) * binade ∧ unitsOf m = significand * 2 ^ scale := by
  induction scale generalizing significand with
  | zero =>
    have hunits : unitsOf (0 * binade + significand) = significand * 2 ^ 0 :=
      unitsOf_eq hle (.inl rfl)
    rw [Nat.zero_mul, Nat.zero_add] at hunits
    exact ⟨significand, by omega, hunits⟩
  | succ scale ih =>
    by_cases hfull : binade ≤ significand
    · have hmag : (scale + 1) * binade + significand ≤ (scale + 1 + 2) * binade := by
        simp only [binade] at *
        omega
      exact ⟨_, hmag, unitsOf_eq hle (.inr hfull)⟩
    · have hdouble : 2 * significand ≤ 2 * binade := by omega
      obtain ⟨m, hm, hunits⟩ := ih hdouble
      refine ⟨m, hm.trans (Nat.mul_le_mul_right _ (by omega)), ?_⟩
      rw [hunits, Nat.pow_succ]
      ring

/-! ### Doubles -/

/-- The value of a double. -/
def toRat (x : Binary64) : ℚ :=
  signOf x.negative * (x.units / unitsInOne)

/-- The units that a key stands for, with its sign. -/
def unitsOfKey (key : ℤ) : ℤ :=
  key.sign * unitsOf key.natAbs

@[simp] theorem unitsOfKey_neg (key : ℤ) : unitsOfKey (-key) = -unitsOfKey key := by
  simp [unitsOfKey]

@[simp] theorem unitsOfKey_natCast (magnitude : Nat) :
    unitsOfKey magnitude = unitsOf magnitude := by
  cases magnitude with
  | zero => rfl
  | succ m =>
    rw [unitsOfKey, Int.natAbs_natCast, Int.sign_natCast_of_ne_zero (Nat.succ_ne_zero m), one_mul]

/-- Units grow with keys. -/
theorem unitsOfKey_lt_iff {k l : ℤ} : unitsOfKey k < unitsOfKey l ↔ k < l := by
  have hmono : StrictMono unitsOfKey := by
    refine strictMono_of_odd_strictMonoOn_nonneg unitsOfKey_neg fun k hk l hl hlt => ?_
    obtain ⟨m, rfl⟩ := Int.eq_ofNat_of_zero_le hk
    obtain ⟨n, rfl⟩ := Int.eq_ofNat_of_zero_le hl
    rw [unitsOfKey_natCast, unitsOfKey_natCast]
    exact_mod_cast unitsOf_strictMono (Int.ofNat_lt.1 hlt)
  exact hmono.lt_iff_lt

theorem toRat_eq (x : Binary64) : x.toRat = unitsOfKey x.key / unitsInOne := by
  unfold toRat key signOf
  cases x.negative with
  | false => simp [units, unitsOf]
  | true => simp [units, unitsOf, neg_div]

/-- Values grow with keys. -/
theorem toRat_lt_toRat_iff {x y : Binary64} : x.toRat < y.toRat ↔ x.key < y.key := by
  have hone : (0 : ℚ) < unitsInOne := by exact_mod_cast unitsInOne_pos
  rw [toRat_eq, toRat_eq, div_lt_div_iff_of_pos_right hone, Int.cast_lt, unitsOfKey_lt_iff]

theorem toRat_le_toRat_iff {x y : Binary64} : x.toRat ≤ y.toRat ↔ x.key ≤ y.key := by
  rw [← not_lt, toRat_lt_toRat_iff, not_lt]

theorem toRat_eq_toRat_iff {x y : Binary64} : x.toRat = y.toRat ↔ x.key = y.key := by
  rw [le_antisymm_iff, toRat_le_toRat_iff, toRat_le_toRat_iff, ← le_antisymm_iff]

theorem order_eq_lt_iff {x y : Binary64} : x.order y = .lt ↔ x.toRat < y.toRat := by
  rw [toRat_lt_toRat_iff]
  exact compare_lt_iff_lt

theorem order_eq_gt_iff {x y : Binary64} : x.order y = .gt ↔ y.toRat < x.toRat := by
  rw [toRat_lt_toRat_iff]
  exact compare_gt_iff_gt

theorem order_eq_eq_iff {x y : Binary64} : x.order y = .eq ↔ x.toRat = y.toRat := by
  rw [toRat_eq_toRat_iff]
  exact compare_eq_iff_eq

theorem abs_toRat (x : Binary64) : |x.toRat| = unitsOf x.magnitude / unitsInOne := by
  rw [toRat, abs_signOf_mul, abs_of_nonneg (by positivity)]
  rfl

theorem toRat_zero (negative : Bool) : (zero negative).toRat = 0 := by
  simp [toRat, zero, units, significandOf]

/-- Doubles of one magnitude and different values have opposite ones. -/
theorem toRat_eq_neg {x y : Binary64} (hmagnitude : y.magnitude = x.magnitude)
    (hne : y.toRat ≠ x.toRat) : y.toRat = -x.toRat := by
  unfold toRat units signOf at *
  rw [hmagnitude] at *
  cases hx : x.negative <;> cases hy : y.negative <;> simp_all

end Binary64

/-- The value of a number. -/
def Number.toRat : Number → ℚ
  | .int i => i.value
  | .float x => x.toRat

end DocSearch
