import DocSearch.Json.Basic
import DocSearch.Text.Blank

/-!
# Query — values

The value of a predicate is a number or a text.  A raw value is a number when it stands without
quotes, is a plain numeral, and is within the range of the doubles; otherwise it is text
(`Value.classify`).  A numeral without point is an integer if it fits 64 bits with a sign.

A value is written so that it is read back as it is (`Value.plain`): text goes between quotes
when it is empty, would be split, or would be read as a number.
-/

namespace DocSearch.Query

/-- A number or a text. -/
inductive Value where
  | number (n : Number)
  | text (s : Text)
  deriving DecidableEq

namespace Value

/-- Whether a text is a plain numeral. -/
def isNumeral (s : Text) : Bool :=
  (Numeral.ofPlain? s).isSome

/-- The integers that 64 bits hold with a sign. -/
def signed64? (n : Int) : Option Integer64 :=
  if n < 0x8000000000000000 then Integer64.ofInt? n else none

/-- The number that a plain numeral stands for, unless it is beyond the doubles. -/
def numberOf? (n : Numeral) : Option Number :=
  match if n.isWhole then signed64? n.wholeValue else none with
  | some value => some (.int value)
  | none => n.toDecimal.nearest?.map .float

/-- The value of a raw text, given whether it stood between quotes. -/
def classify (raw : Text) (quoted : Bool) : Value :=
  match if quoted then none else (Numeral.ofPlain? raw).bind numberOf? with
  | some n => .number n
  | none => .text raw

/-- Whether a text has to stand between quotes to be read back as it is. -/
def needsQuotes (s : Text) : Bool :=
  s.isEmpty || s.any isBlank || isNumeral s

/-- A value as it is written in a query. -/
def plain : Value → Text
  | .number n => n.plain
  | .text s => if needsQuotes s then '"' :: s ++ ['"'] else s

/-- A value as it stands in JSON. -/
def toJson : Value → Json
  | .number n => .number n
  | .text s => .text s

/-- Two values are the same when they are the same number or equal texts. -/
def same : Value → Value → Bool
  | .number a, .number b => a.same b
  | .text s, .text t => s = t
  | _, _ => false

/-- Whether a value of a document is equal to the value of a predicate.  Numbers are as doubles, so 250
is equal to 250.0; every number has one, and none is compared in any other way. -/
def isEqual : (actual : Json) → (expected : Value) → Bool
  | .number a, .number b => a.isEqual b
  | .text s, .text t => s = t
  | _, _ => false

/-- How a value of a document stands to the value of a predicate: numbers by size, texts by code
points, and values of different kinds not at all. -/
def order? : (actual : Json) → (expected : Value) → Option Ordering
  | .number a, .number b => some (a.order b)
  | .text s, .text t => some (compare s t)
  | _, _ => none

end Value

end DocSearch.Query
