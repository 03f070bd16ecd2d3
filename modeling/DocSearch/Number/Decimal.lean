import DocSearch.Number.Binary64
import DocSearch.Text.Basic

/-!
# Number — decimal numbers

A `Decimal` is an exact number `± c · 10ᵖ`; a `Numeral` is the text of one, taken apart.  A
numeral is a sign, digits, and possibly a point with further digits, and its value is the
digits' value shifted by the number of digits behind the point (`Numeral.toDecimal`).

The plain numerals, those without exponent, are

    [+-]? ( [0-9]+ ( . [0-9]* )? | . [0-9]+ )

in ASCII digits alone (`Numeral.ofPlain?`).

A decimal reads as the nearest double, or as none if that is an infinity (`Decimal.nearest?`).
-/

namespace DocSearch

/-- The number `± coefficient · 10 ^ place`.  Zero has a sign too. -/
structure Decimal where
  negative : Bool
  coefficient : Nat
  place : Int
  deriving DecidableEq

namespace Decimal

/-- The absolute value is `numerator / denominator`. -/
def numerator (d : Decimal) : Nat :=
  d.coefficient * Nat.pow 10 d.place.toNat

@[inherit_doc numerator] def denominator (d : Decimal) : Nat :=
  Nat.pow 10 (-d.place).toNat

theorem denominator_pos (d : Decimal) : 0 < d.denominator :=
  Nat.pow_pos (Nat.succ_pos 9)

/-- The nearest double of the same sign, a tie going to the even significand, or none from
2¹⁰²⁴ − 2⁹⁷⁰ on.  No power of ten is formed for a value below 10⁻³³⁰ (it rounds to zero) or
above 10³¹⁰ (it does not fit): a coefficient has at least `log2 / 4` digits behind the first,
and at most `log2 / 3`. -/
def nearest? (d : Decimal) : Option Binary64 :=
  if d.coefficient = 0 then some (.zero d.negative)
  else if 310 < d.place + (d.coefficient.log2 / 4 : Nat) then none
  else if d.place + (d.coefficient.log2 / 3 + 1 : Nat) < -330 then some (.zero d.negative)
  else Binary64.ofRatio? d.negative d.numerator d.denominator

end Decimal

/-- The text of a number, taken apart: the digits in front of the point, those behind it if it
has a point, and the power of ten behind an `e` if it has one. -/
structure Numeral where
  negative : Bool
  whole : Text
  fraction : Option Text
  exponent : Option Int
  deriving DecidableEq

namespace Numeral

/-- All digits, without the point. -/
def digits (n : Numeral) : Text :=
  n.whole ++ n.fraction.getD []

/-- The exact value of a numeral. -/
def toDecimal (n : Numeral) : Decimal where
  negative := n.negative
  coefficient := Nat.ofDigitChars 10 n.digits 0
  place := n.exponent.getD 0 - (n.fraction.getD []).length

/-- A numeral with neither point nor exponent. -/
def isWhole (n : Numeral) : Bool :=
  n.fraction.isNone && n.exponent.isNone

/-- The value of the digits in front of the point, with the sign. -/
def wholeValue (n : Numeral) : Int :=
  if n.negative then -(Nat.ofDigitChars 10 n.whole 0 : Int) else Nat.ofDigitChars 10 n.whole 0

/-- A text split into whether it has a minus sign in front, and what follows its sign. -/
def splitSign : Text → Bool × Text
  | '-' :: s => (true, s)
  | '+' :: s => (false, s)
  | s => (false, s)

/-- A plain numeral behind its sign. -/
def ofUnsigned? (negative : Bool) (s : Text) : Option Numeral :=
  let whole := s.takeWhile Char.isDigit
  match s.dropWhile Char.isDigit with
  | [] => if whole.isEmpty then none else some ⟨negative, whole, none, none⟩
  | c :: fraction =>
    if c = '.' ∧ fraction.all Char.isDigit ∧ ¬(whole ++ fraction).isEmpty then
      some ⟨negative, whole, some fraction, none⟩
    else none

/-- The plain numeral that a text is, if it is one. -/
def ofPlain? (s : Text) : Option Numeral :=
  let (negative, s) := splitSign s
  ofUnsigned? negative s

/-- Both sides of the point may be bare, but not together; a sign needs digits. -/
example : (ofPlain? "10.".toList).isSome ∧ (ofPlain? "-.5".toList).isSome ∧ (ofPlain? "+7".toList).isSome
    ∧ ofPlain? ".".toList = none ∧ ofPlain? "-".toList = none ∧ ofPlain? "1e5".toList = none
    ∧ ofPlain? "1.2.3".toList = none ∧ ofPlain? "٣".toList = none := by decide

end Numeral

end DocSearch
