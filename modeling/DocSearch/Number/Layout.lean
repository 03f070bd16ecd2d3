import DocSearch.Number.Decimal

/-!
# Number — layouts of a decimal

A decimal is written positionally, with a point and at least one digit on either side of it, or
scientifically, with one digit in front of the point and an exponent that always has a sign.
Neither layout adds or drops a significant digit.
-/

namespace DocSearch.Decimal

/-- The digits of the coefficient. -/
def digits (d : Decimal) : Text :=
  Nat.toDigits 10 d.coefficient

/-- A minus sign for the negative, nothing for the others. -/
def sign (d : Decimal) : Text :=
  if d.negative then ['-'] else []

/-- The exponent of the first digit. -/
def exponent (d : Decimal) : Int :=
  d.place + d.digits.length - 1

/-- The digits with as many zeros in front as it takes to have more than `count` of them. -/
def padded (d : Decimal) (count : Nat) : Text :=
  List.replicate (count + 1 - d.digits.length) '0' ++ d.digits

/-- Digits, a point, digits. -/
def positional (d : Decimal) : Text :=
  if 0 ≤ d.place then d.sign ++ d.digits ++ List.replicate d.place.toNat '0' ++ ['.', '0']
  else
    let places := (-d.place).toNat
    let all := d.padded places
    d.sign ++ all.take (all.length - places) ++ '.' :: all.drop (all.length - places)

/-- An integer with its sign, `+` included. -/
def signedDigits (n : Int) : Text :=
  (if n < 0 then '-' else '+') :: Nat.toDigits 10 n.natAbs

/-- The first digit, a point and the others if there are others, and the exponent. -/
def scientific (d : Decimal) : Text :=
  match d.digits with
  | [] => []
  | first :: [] => d.sign ++ first :: 'e' :: signedDigits d.exponent
  | first :: others => d.sign ++ first :: '.' :: others ++ 'e' :: signedDigits d.exponent

/-- The point moves to where the place says; a lone digit has no point in front of its exponent. -/
example : positional ⟨true, 25, -1⟩ = "-2.5".toList ∧ positional ⟨false, 1, -7⟩ = "0.0000001".toList
    ∧ positional ⟨false, 1, 3⟩ = "1000.0".toList ∧ scientific ⟨false, 15, 299⟩ = "1.5e+300".toList
    ∧ scientific ⟨true, 1, -7⟩ = "-1e-7".toList := by decide +kernel

end DocSearch.Decimal
