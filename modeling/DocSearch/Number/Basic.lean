import DocSearch.Number.Layout
import DocSearch.Number.Shortest

/-!
# Number — numbers of documents and queries

A number is an integer of at most 64 bits, signed or unsigned, or a finite double.  Numbers are
compared as doubles (`Number.isEqual`, `Number.order`), whatever they were written as.

Two texts are written of a number.  In a query it is plain: an integer has no point, a double
has exactly one and never an exponent, so that it is read as a double again (`Number.plain`).
In JSON a double far from one has an exponent (`Number.json`).
-/

namespace DocSearch

/-- An integer that fits 64 bits with or without a sign. -/
structure Integer64 where
  value : Int
  inRange : -0x8000000000000000 ≤ value ∧ value < 0x10000000000000000
  deriving DecidableEq

/-- The integer as one of 64 bits, if it fits. -/
def Integer64.ofInt? (n : Int) : Option Integer64 :=
  if h : -0x8000000000000000 ≤ n ∧ n < 0x10000000000000000 then some ⟨n, h⟩ else none

/-- An integer's sign, if negative, and its digits. -/
def Integer64.text (n : Integer64) : Text :=
  (if n.value < 0 then ['-'] else []) ++ Nat.toDigits 10 n.value.natAbs

/-- An integer or a finite double. -/
inductive Number where
  | int (n : Integer64)
  | float (x : Binary64)
  deriving DecidableEq

namespace Number

/-- The nearest double. -/
def toBinary64 : Number → Binary64
  | .int n => .ofInt n.value (by have := n.inRange; omega)
  | .float x => x

/-- Whether two numbers are equal, as doubles. -/
def isEqual (a b : Number) : Bool :=
  a.toBinary64.key = b.toBinary64.key

/-- The numeric order, as doubles. -/
def order (a b : Number) : Ordering :=
  Binary64.order a.toBinary64 b.toBinary64

/-- Two numbers are the same when both are integers or both doubles, of equal value.  So 1 and
1.0 are not the same, and the two zeros among the doubles are. -/
def same : Number → Number → Bool
  | .int a, .int b => a.value = b.value
  | .float x, .float y => x.key = y.key
  | _, _ => false

/-- Plain decimal text, as queries have it. -/
def plain : Number → Text
  | .int n => n.text
  | .float x => (x.shortest .away).positional

/-- The text of a number in JSON: doubles from 10⁻⁵ to below 10¹⁶ are written positionally. -/
def json : Number → Text
  | .int n => n.text
  | .float x =>
    let d := x.shortest .toEven
    if -5 ≤ d.exponent ∧ d.exponent ≤ 15 then d.positional else d.scientific

end Number

end DocSearch
