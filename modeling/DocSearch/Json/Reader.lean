import DocSearch.Json.Basic
import DocSearch.Number.Approximate

/-!
# JSON — the strict reader

`Json.read?` reads exactly the JSON texts of RFC 8259, with three limits: containers nest at most
`maxDepth` deep, a number must not be too large for a double, and an escaped surrogate must have
its partner.  White space is space, tab, line feed and carriage return.

A number without fraction and exponent is an integer if it fits 64 bits, signed or not.  Any other
number is a double, and so is `-0`, which an integer cannot hold.  It is read approximately
(`Numeral.approximate?`): what is read need not be the nearest double, and a double need not be read
back from its own text.

Each reader takes a value off the front of a text and returns the rest.  The readers of arrays
and objects call the reader of values at a smaller depth.  How doubles are read is a parameter of
all of them (`Json.readBy?`), for nothing else depends on it.
-/

namespace DocSearch.Json

/-- The number of containers that may be open at once. -/
def maxDepth : Nat := 127

/-- The white space of JSON. -/
def isSpace (c : Char) : Bool :=
  c = ' ' || c = '\t' || c = '\n' || c = '\r'

/-- A text without the white space in front. -/
def skipSpace (s : Text) : Text :=
  s.dropWhile isSpace

/-! ### Strings -/

/-- The value of a hexadecimal digit in either case. -/
def hexValue? (c : Char) : Option Nat :=
  if '0' ≤ c ∧ c ≤ '9' then some (c.toNat - 0x30)
  else if 'a' ≤ c ∧ c ≤ 'f' then some (c.toNat - 0x61 + 10)
  else if 'A' ≤ c ∧ c ≤ 'F' then some (c.toNat - 0x41 + 10)
  else none

/-- The value of four hexadecimal digits. -/
def unit? (a b c d : Char) : Option Nat := do
  let high := (← hexValue? a) * 16 + (← hexValue? b)
  let low := (← hexValue? c) * 16 + (← hexValue? d)
  return high * 256 + low

/-- The units that stand for the first half of a character beyond U+FFFF. -/
def isHighSurrogate (unit : Nat) : Bool :=
  0xD800 ≤ unit && unit < 0xDC00

/-- The units that stand for the second half of a character beyond U+FFFF. -/
def isLowSurrogate (unit : Nat) : Bool :=
  0xDC00 ≤ unit && unit < 0xE000

/-- The character of two surrogates. -/
def ofSurrogates (high low : Nat) : Char :=
  Char.ofNat (0x10000 + (high - 0xD800) * 0x400 + (low - 0xDC00))

/-- The character that a letter stands for behind a backslash. -/
def shortEscape? (c : Char) : Option Char :=
  if c = '"' then some '"'
  else if c = '\\' then some '\\'
  else if c = '/' then some '/'
  else if c = 'b' then some '\x08'
  else if c = 'f' then some '\x0c'
  else if c = 'n' then some '\n'
  else if c = 'r' then some '\r'
  else if c = 't' then some '\t'
  else none

/-- The content of a string behind its opening quote, and the rest behind the closing one. -/
def stringBody? : Text → Option (Text × Text)
  | [] => none
  | '\\' :: 'u' :: a :: b :: c :: d :: s => do
    let unit ← unit? a b c d
    if isHighSurrogate unit then
      match s with
      | '\\' :: 'u' :: a :: b :: c :: d :: s => do
        let low ← unit? a b c d
        if isLowSurrogate low then
          (stringBody? s).map fun (body, rest) => (ofSurrogates unit low :: body, rest)
        else none
      | _ => none
    else if isLowSurrogate unit then none
    else (stringBody? s).map fun (body, rest) => (Char.ofNat unit :: body, rest)
  | '\\' :: e :: s => do
    let c ← shortEscape? e
    (stringBody? s).map fun (body, rest) => (c :: body, rest)
  | c :: s =>
    if c = '"' then some ([], s)
    else if c = '\\' ∨ c.toNat < 0x20 then none
    else (stringBody? s).map fun (body, rest) => (c :: body, rest)

/-! ### Numbers -/

/-- A fraction, if a point follows. -/
def fraction? : Text → Option (Option Text × Text)
  | '.' :: rest =>
    let digits := rest.takeWhile Char.isDigit
    if digits.isEmpty then none else some (some digits, rest.dropWhile Char.isDigit)
  | s => some (none, s)

/-- An exponent, if an `e` follows in either case. -/
def exponent? : Text → Option (Option Int × Text)
  | [] => some (none, [])
  | c :: rest =>
    if c = 'e' ∨ c = 'E' then
      let (negative, rest) := Numeral.splitSign rest
      let digits := rest.takeWhile Char.isDigit
      let value : Int := Nat.ofDigitChars 10 digits 0
      if digits.isEmpty then none
      else some (some (if negative then -value else value), rest.dropWhile Char.isDigit)
    else some (none, c :: rest)

/-- A numeral: no plus sign, no zero in front of other digits, no bare point. -/
def numeral? (s : Text) : Option (Numeral × Text) := do
  let (negative, s) := match s with
    | '-' :: rest => (true, rest)
    | s => (false, s)
  let whole := s.takeWhile Char.isDigit
  if whole.isEmpty ∨ (whole.head? = some '0' ∧ whole.length ≠ 1) then none
  else do
    let (fraction, s) ← fraction? (s.dropWhile Char.isDigit)
    let (exponent, s) ← exponent? s
    return (⟨negative, whole, fraction, exponent⟩, s)

/-- A way to read doubles: the one that a numeral is read as, if it is not refused. -/
abbrev ReadsDouble := Numeral → Option Binary64

/-- The number that a numeral stands for. -/
def numberOf? (double? : ReadsDouble) (n : Numeral) : Option Number :=
  match Integer64.ofInt? n.wholeValue with
  | some value =>
    if n.isWhole ∧ ¬(n.negative ∧ value.value = 0) then some (.int value)
    else (double? n).map .float
  | none => (double? n).map .float

/-! ### Values -/

/-- A reader of some kind of thing. -/
abbrev Reads (α : Type) := Text → Option (α × Text)

/-- One or more things, at most `limit`, with commas between them, up to a closing bracket. -/
def sequence? {α : Type} (thing? : Reads α) (close : Char) : (limit : Nat) → Reads (List α)
  | 0, _ => none
  | limit + 1, s =>
    match thing? s with
    | none => none
    | some (thing, rest) =>
      match skipSpace rest with
      | [] => none
      | c :: rest =>
        if c = close then some ([thing], rest)
        else if c = ',' then
          (sequence? thing? close limit rest).map fun (things, rest) => (thing :: things, rest)
        else none

/-- The things of a container behind its opening bracket: no more than there are characters. -/
def container? {α : Type} (thing? : Reads α) (close : Char) (s : Text) : Option (List α × Text) :=
  match skipSpace s with
  | [] => none
  | c :: rest =>
    if c = close then some ([], rest) else sequence? thing? close s.length (c :: rest)

/-- A member of an object: a key, a colon and a value. -/
def member? (value? : Reads Json) (s : Text) : Option ((Text × Json) × Text) :=
  match skipSpace s with
  | '"' :: rest => do
    let (key, rest) ← stringBody? rest
    match skipSpace rest with
    | ':' :: rest => do
      let (value, rest) ← value? rest
      return ((key, value), rest)
    | _ => none
  | _ => none

/-- The three values that are written as words. -/
def words : List (Text × Json) :=
  [(['n', 'u', 'l', 'l'], .null), (['t', 'r', 'u', 'e'], .bool true),
    (['f', 'a', 'l', 's', 'e'], .bool false)]

/-- A word at the front of a text. -/
def word? (s : Text) : Option (Json × Text) :=
  words.findSome? fun (word, value) => (Text.after? word s).map (value, ·)

/-- A value that is no container; the text begins with it. -/
def scalar? (double? : ReadsDouble) (s : Text) : Option (Json × Text) :=
  match s with
  | '"' :: rest => (stringBody? rest).map fun (body, rest) => (.text body, rest)
  | s =>
    match word? s with
    | some found => some found
    | none => do
      let (numeral, rest) ← numeral? s
      let number ← numberOf? double? numeral
      return (.number number, rest)

/-- A value in which at most `depth` containers are open at once. -/
def value? (double? : ReadsDouble) (depth : Nat) (s : Text) : Option (Json × Text) :=
  match depth, skipSpace s with
  | _, [] => none
  | 0, c :: rest => if c = '[' ∨ c = '\x7b' then none else scalar? double? (c :: rest)
  | depth + 1, c :: rest =>
    if c = '[' then
      (container? (value? double? depth) ']' rest).map fun (items, rest) => (.array items, rest)
    else if c = '\x7b' then
      (container? (member? (value? double? depth)) '\x7d' rest).map fun (members, rest) =>
        (ofMembers members, rest)
    else scalar? double? (c :: rest)

/-- The value of a JSON text, with doubles read in some way. -/
def readBy? (double? : ReadsDouble) (s : Text) : Option Json := do
  let (value, rest) ← value? double? maxDepth s
  if (skipSpace rest).isEmpty then some value else none

/-- The value of a JSON text. -/
def read? (s : Text) : Option Json :=
  readBy? Numeral.approximate? s

/-- An array and an object; a lone surrogate; a control character; a byte order mark. -/
example : (read? "[1, \x7b\"a\": -0\x7d] ".toList).isSome ∧ (read? "\"\\ud83d\\ude00\"".toList).isSome
    ∧ (read? "\"\\ud83d\"".toList).isNone ∧ (read? "\"\t\"".toList).isNone
    ∧ (read? "\ufeff1".toList).isNone ∧ (read? "01".toList).isNone ∧ (read? "1e400".toList).isNone := by
  decide +kernel

end DocSearch.Json
