import DocSearch.Number.Decimal

/-!
# Number — decimals read approximately

A double in a JSON text is not read as the nearest one, but in a few steps that round once each
(`Numeral.approximate?`):

* the digits are taken for a whole number as long as it fits 64 bits, and the digits behind those are
  not looked at; the digits left out in front of the point count as powers of ten
  (`Numeral.leading`);
* the whole number is made a double, and that is multiplied or divided by the double nearest to a
  power of ten (`Decimal.approximate?`).  There are such powers up to 10³⁰⁸.  A multiple of a larger
  one is refused, as a product is that is an infinity, and what is to be divided by a larger one is
  divided by 10³⁰⁸ first, as often as needed.

So what is read may be next to the nearest double, and the limit of the numbers that are refused
depends on how they are written.  Exponents are integers of any size here; to count them in 32 bits,
with those out of range taken for the largest, makes a difference only in texts of some 2³¹
characters.
-/

namespace DocSearch

namespace Binary64

/-! ### Arithmetic -/

/-- The product of two doubles, unless it is an infinity. -/
def mul? (x y : Binary64) : Option Binary64 :=
  ofRatio? (x.negative != y.negative) (x.units * y.units) (unitsInOne * unitsInOne)

/-- The quotient of two doubles, of which the second is not zero, unless it is an infinity. -/
def div? (x y : Binary64) : Option Binary64 :=
  ofRatio? (x.negative != y.negative) x.units y.units

/-- The exponent of the largest power of ten below infinity. -/
def maxPower : Nat := 308

/-- The double nearest to a power of ten, if it is not beyond the largest. -/
def power? (n : Nat) : Option Binary64 :=
  if n ≤ maxPower then ofRatio? false (Nat.pow 10 n) 1 else none

/-- A double times `10ⁿ`, unless it is too large.  Zero never is. -/
def mulPower? (x : Binary64) (n : Nat) : Option Binary64 :=
  match power? n with
  | some power => x.mul? power
  | none => if x.magnitude = 0 then some x else none

/-- A double divided by the largest power of ten a number of times, or until it is zero. -/
def shrink? : (rounds : Nat) → Binary64 → Option Binary64
  | 0, x => some x
  | rounds + 1, x =>
    if x.magnitude = 0 then some x else do shrink? rounds (← x.div? (← power? maxPower))

/-- A double divided by `10ⁿ`: by the largest power as long as more than that is left, and then by
what is left. -/
def divPower? (x : Binary64) (n : Nat) : Option Binary64 := do
  let rounds := (n - 1) / maxPower
  (← shrink? rounds x).div? (← power? (n - rounds * maxPower))

end Binary64

/-- The double that a decimal of at most 64 bits is read as, if it is not refused. -/
def Decimal.approximate? (d : Decimal) : Option Binary64 := do
  let x ← Binary64.ofRatio? d.negative d.coefficient 1
  if 0 ≤ d.place then x.mulPower? d.place.toNat else x.divPower? (-d.place).toNat

namespace Numeral

/-- A whole number with as many digits behind it as fit 64 bits, and the number of digits left. -/
def absorb (n : Nat) : (digits : Text) → Nat × Nat
  | [] => (n, 0)
  | c :: digits =>
    let next := 10 * n + (c.toNat - '0'.toNat)
    if next < 0x10000000000000000 then absorb next digits else (n, (c :: digits).length)

/-- What is taken of a numeral: of the digits in front of the point, and then of those behind it, as
many as fit. -/
def leading (n : Numeral) : Decimal :=
  let fraction := n.fraction.getD []
  let (whole, skipped) := absorb 0 n.whole
  let (coefficient, ignored) := absorb whole fraction
  ⟨n.negative, coefficient, n.exponent.getD 0 + skipped - (fraction.length - ignored : Nat)⟩

/-- The double that a numeral is read as, if it is not refused. -/
def approximate? (n : Numeral) : Option Binary64 :=
  n.leading.approximate?

/-- A last digit that is lost, a number that is refused, and a larger one that is not. -/
example : approximate? ⟨false, ['1'], some "4000000000000001".toList, none⟩
      = approximate? ⟨false, ['1'], some ['4'], none⟩
    ∧ approximate? ⟨false, ['1'], some "7976931348623158".toList, some 308⟩ = none
    ∧ (approximate? ⟨false, "179769313486231581".toList, none, some 291⟩).isSome := by decide +kernel

end Numeral

end DocSearch
