import DocSearch.Text.Basic

/-!
# TOML — words

A value that begins with none of quote, bracket and brace is a word: a truth value, a number or a
time.  Of numbers and times only the form is told, since nothing here takes their value:

* an integer of base 16, 8 or 2 has the mark of its base, no sign, and digits of that base in
  groups, or none at all;
* a decimal integer may have a sign and has no leading zero; one in several groups is known by
  the first, and of the others only the underscores are looked at (`isGroupedDecimal`);
* a float is decimal digits with a fraction, an exponent or both, or is infinite or no number;
* a time is a date, a time of day, or a date and a time of day with or without an offset from
  UTC; seconds may be left out.

Groups of digits have single underscores between them.
-/

namespace DocSearch.Toml

/-! ### Numbers -/

/-- One or more digits, an underscore allowed between any two. -/
def isGrouped (isDigit : Char → Bool) : Text → Bool
  | [] => false
  | [c] => isDigit c
  | c :: '_' :: s => isDigit c && isGrouped isDigit s
  | c :: s => isDigit c && isGrouped isDigit s

/-- Digits in groups, without a zero in front of others. -/
def isWhole (s : Text) : Bool :=
  isGrouped Char.isDigit s && (s.length = 1 || s.head? ≠ some '0')

/-- A text without the sign in front. -/
def dropSign : Text → Text
  | '+' :: s => s
  | '-' :: s => s
  | s => s

/-- A hexadecimal digit in either case. -/
def isHexDigit (c : Char) : Bool :=
  c.isDigit || ('a' ≤ c && c ≤ 'f') || ('A' ≤ c && c ≤ 'F')

/-- Whether every underscore of a text stands between two hexadecimal digits, given whether there
is one in front of the text. -/
def isJoined (digitBefore : Bool) : Text → Bool
  | [] => true
  | c :: s =>
    if c = '_' then digitBefore && isJoined false s && s.head?.any isHexDigit
    else isJoined (isHexDigit c) s

/-- A decimal integer in several groups, behind its sign.  The first group is of decimal digits;
behind it stands anything but a space, a point or an `e`, with every underscore between
hexadecimal digits. -/
def isGroupedDecimal (s : Text) : Bool :=
  (s.dropWhile Char.isDigit).head? = some '_' && s.head? ≠ some '0' && isJoined false s
    && !s.any fun c => c = ' ' || c = '.' || c = 'e' || c = 'E'

/-- The digits of an integer behind the mark of its base. -/
def isBased (isDigit : Char → Bool) (s : Text) : Bool :=
  s.isEmpty || isGrouped isDigit s

/-- An integer, of one of four bases. -/
def isInteger : Text → Bool
  | '0' :: 'x' :: s => isBased isHexDigit s
  | '0' :: 'o' :: s => isBased (fun c => '0' ≤ c && c ≤ '7') s
  | '0' :: 'b' :: s => isBased (fun c => c = '0' || c = '1') s
  | s => isWhole (dropSign s) || isGroupedDecimal (dropSign s)

/-- The characters that digits in groups are made of. -/
def isGroupChar (c : Char) : Bool :=
  c.isDigit || c = '_'

/-- What may follow the digits of a float: an exponent or nothing. -/
def isExponent : Text → Bool
  | [] => true
  | c :: s => (c = 'e' || c = 'E') && isGrouped Char.isDigit (dropSign s)

/-- A float. -/
def isFloat (s : Text) : Bool :=
  let s := dropSign s
  s = ['i', 'n', 'f'] || s = ['n', 'a', 'n'] ||
    isWhole (s.takeWhile isGroupChar) &&
      match s.dropWhile isGroupChar with
      | [] => false
      | '.' :: rest =>
        isGrouped Char.isDigit (rest.takeWhile isGroupChar) && isExponent (rest.dropWhile isGroupChar)
      | rest => isExponent rest

/-! ### Times -/

/-- The number of two digits in front of a text, and the rest. -/
def twoDigits? : Text → Option (Nat × Text)
  | a :: b :: s => if a.isDigit && b.isDigit then some (Nat.ofDigitChars 10 [a, b] 0, s) else none
  | _ => none

/-- The days of a month of the Gregorian calendar. -/
def daysIn (year month : Nat) : Nat :=
  if month = 2 then
    if year % 4 = 0 ∧ (year % 100 ≠ 0 ∨ year % 400 = 0) then 29 else 28
  else if month = 4 ∨ month = 6 ∨ month = 9 ∨ month = 11 then 30
  else 31

/-- What follows a date, if the text begins with one. -/
def afterDate? (s : Text) : Option Text := do
  let (century, s) ← twoDigits? s
  let (year, s) ← twoDigits? s
  let (month, s) ← twoDigits? (← Text.after? ['-'] s)
  let (day, s) ← twoDigits? (← Text.after? ['-'] s)
  if 1 ≤ month ∧ month ≤ 12 ∧ 1 ≤ day ∧ day ≤ daysIn (100 * century + year) month then s else none

/-- What follows an hour and a minute, if the text begins with them. -/
def afterMinute? (s : Text) : Option Text := do
  let (hour, s) ← twoDigits? s
  let (minute, s) ← twoDigits? (← Text.after? [':'] s)
  if hour < 24 ∧ minute < 60 then s else none

/-- What follows a time of day, if the text begins with one.  A minute may have a leap second. -/
def afterClock? (s : Text) : Option Text := do
  let s ← afterMinute? s
  match s with
  | ':' :: s => do
    let (second, s) ← twoDigits? s
    if 60 < second then none
    else match s with
      | '.' :: s =>
        if (s.takeWhile Char.isDigit).isEmpty then none else some (s.dropWhile Char.isDigit)
      | s => some s
  | s => some s

/-- An offset from UTC. -/
def isOffset : Text → Bool
  | ['Z'] => true
  | ['z'] => true
  | '+' :: s => afterMinute? s = some []
  | '-' :: s => afterMinute? s = some []
  | _ => false

/-- A time of day, with an offset if that may be. -/
def isClock (withOffset : Bool) (s : Text) : Bool :=
  match afterClock? s with
  | none => false
  | some rest => rest.isEmpty || (withOffset && isOffset rest)

/-- A date, a time of day, or both. -/
def isTime (s : Text) : Bool :=
  match afterDate? s with
  | none => isClock false s
  | some [] => true
  | some (c :: rest) => (c = 'T' || c = 't' || c = ' ') && isClock true rest

/-! ### Words -/

/-- The characters of words: all that do not end one. -/
def isWordChar (c : Char) : Bool :=
  !(c = '=' || c = ',' || c = '[' || c = ']' || c = '\x7b' || c = '\x7d' || c = '#'
    || c = ' ' || c = '\t' || c = '\r' || c = '\n')

/-- A text split behind the word that it begins with.  Spaces and tabs belong to the word where
more of it follows, as between a date and a time of day; a quote begins no more of it. -/
def splitWord : Text → Text × Text
  | [] => ([], [])
  | c :: s =>
    if isWordChar c then
      let (word, rest) := splitWord s
      (c :: word, rest)
    else if c = ' ' ∨ c = '\t' then
      match splitWord s with
      | ([], _) => ([], c :: s)
      | (d :: word, rest) =>
        if d = '"' ∨ d = '\'' then ([], c :: s) else (c :: d :: word, rest)
    else ([], c :: s)

/-- Signs, groups and bases of numbers; a leap day; a date with a time of day. -/
example : isInteger "+1_000".toList ∧ isInteger "0xdead_BEEF".toList ∧ isInteger "1_0:f".toList
    ∧ isInteger "1_0x_1".toList = false ∧ isInteger "+_1".toList = false ∧ isFloat "-0.5e+07".toList
    ∧ isTime "2000-02-29".toList ∧ isTime "1979-05-27 07:32Z".toList ∧ isInteger "01".toList = false
    ∧ isInteger "1__0".toList = false ∧ isFloat "1.".toList = false
    ∧ isTime "1900-02-29".toList = false := by decide +kernel

end DocSearch.Toml
