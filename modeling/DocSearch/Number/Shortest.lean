import DocSearch.Number.Decimal

/-!
# Number — the shortest decimal of a double

The decimal chosen for a double reads back as that double and has as few digits as such a
decimal can have; of two that have equally few it is the nearer one.  Where both are equally
near, the format that asks decides (`Tie`).

The search goes down the powers of ten.  At each it looks at the two multiples around the
double, and takes one that reads back; a coarser power comes first, so the first hit has the
fewest digits.  It ends at the latest at 10⁻¹⁰⁷⁴, of which every double is a multiple.

What a power of ten offers reads back (`readsBack_of_hitAt?`).
-/

namespace DocSearch

/-- Which of two decimals equally near to a double is chosen for it. -/
inductive Tie where
  /-- the one with the even last digit -/
  | toEven
  /-- the larger one -/
  | away
  deriving DecidableEq

namespace Binary64

/-- The decimal with a double's sign, and a given coefficient and place. -/
def decimalAt (x : Binary64) (place : Int) (coefficient : Nat) : Decimal :=
  ⟨x.negative, coefficient, place⟩

/-- The absolute value of a double in multiples of a power of ten, as a quotient. -/
def ratioAt (x : Binary64) (place : Int) : Nat × Nat :=
  (x.units * Nat.pow 10 (-place).toNat, unitsInOne * Nat.pow 10 place.toNat)

/-- The largest multiple of a power of ten that is no larger than a double in absolute value. -/
def lowerAt (x : Binary64) (place : Int) : Nat :=
  (x.ratioAt place).1 / (x.ratioAt place).2

/-- A coefficient reads back at a place when the double is the nearest to that decimal. -/
def ReadsBack (x : Binary64) (place : Int) (coefficient : Nat) : Prop :=
  (x.decimalAt place coefficient).nearest? = some x

instance (x : Binary64) (place : Int) (coefficient : Nat) :
    Decidable (ReadsBack x place coefficient) :=
  inferInstanceAs (Decidable (_ = _))

/-- Of `low` and `low + 1` the one nearer to the quotient `n / d` between them. -/
def nearer (tie : Tie) (n d low : Nat) : Nat :=
  if 2 * n < (2 * low + 1) * d then low
  else if (2 * low + 1) * d < 2 * n then low + 1
  else match tie with
    | .toEven => low + low % 2
    | .away => low + 1

theorem nearer_eq_or (tie : Tie) (n d low : Nat) :
    nearer tie n d low = low ∨ nearer tie n d low = low + 1 := by
  unfold nearer
  split
  · exact .inl rfl
  · split
    · exact .inr rfl
    · cases tie
      · simp only
        omega
      · exact .inr rfl

/-- The multiple of a power of ten that a double is written as, if one of the two around it
reads back. -/
def hitAt? (tie : Tie) (x : Binary64) (place : Int) : Option Nat :=
  let low := x.lowerAt place
  if ReadsBack x place low then
    if ReadsBack x place (low + 1) then
      some (nearer tie (x.ratioAt place).1 (x.ratioAt place).2 low)
    else some low
  else if ReadsBack x place (low + 1) then some (low + 1)
  else none

/-- The first hit at a power of ten or at one of the `steps` powers below it. -/
def searchFrom (tie : Tie) (x : Binary64) : (steps : Nat) → (place : Int) → Decimal
  | 0, place => x.decimalAt place (x.lowerAt place)
  | steps + 1, place =>
    ((hitAt? tie x place).map (x.decimalAt place)).getD (searchFrom tie x steps (place - 1))

/-- The shortest decimal of a double: the number of digits of its whole part is the first power
of ten that can hold it. -/
def shortest (tie : Tie) (x : Binary64) : Decimal :=
  if x.magnitude = 0 then ⟨x.negative, 0, 0⟩
  else
    let top := (Nat.toDigits 10 (x.units / unitsInOne)).length
    searchFrom tie x (top + unitExponent) top

/-- What a power of ten offers reads back. -/
theorem readsBack_of_hitAt? {tie : Tie} {x : Binary64} {place : Int} {coefficient : Nat}
    (h : hitAt? tie x place = some coefficient) : ReadsBack x place coefficient := by
  unfold hitAt? at h
  simp only at h
  split at h
  · next h0 =>
    split at h
    · next h1 =>
      cases h
      rcases nearer_eq_or tie (x.ratioAt place).1 (x.ratioAt place).2 (x.lowerAt place) with e | e
      · rw [e]; exact h0
      · rw [e]; exact h1
    · cases h; exact h0
  · split at h
    · next h1 => cases h; exact h1
    · cases h

/-- The smallest double, a double just below its shortest decimal, and a tie decided both ways. -/
example : shortest .toEven ⟨true, 1, by decide⟩ = ⟨true, 5, -324⟩
    ∧ (ofRatio? false (10 ^ 23) 1).map (shortest .toEven) = some ⟨false, 1, 23⟩
    ∧ (ofRatio? false 1 (2 ^ 25)).map (shortest .toEven) = some ⟨false, 29802322387695312, -24⟩
    ∧ (ofRatio? false 1 (2 ^ 25)).map (shortest .away) = some ⟨false, 29802322387695313, -24⟩ := by
  decide +kernel

end Binary64

end DocSearch
