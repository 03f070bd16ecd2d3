import DocSearch.Json.Basic

/-!
# JSON — the printer

One printer serves both styles of output (`Json.write`): the compact style has no white space at
all, and the pretty one puts every item and member on a line of its own, two spaces deeper than
its container, and a space behind each colon.  Empty containers are `[]` and `{}` in both.

Strings are written with as few escapes as JSON allows: the quote, the backslash, and the 32
control characters below U+0020.
-/

namespace DocSearch.Json

/-- The digit of a number below sixteen. -/
def hexDigit (n : Nat) : Char :=
  Nat.digitChar n

/-- A character of a string as it is written between the quotes. -/
def escape (c : Char) : Text :=
  if c = '"' then ['\\', '"']
  else if c = '\\' then ['\\', '\\']
  else if c = '\x08' then ['\\', 'b']
  else if c = '\x09' then ['\\', 't']
  else if c = '\x0a' then ['\\', 'n']
  else if c = '\x0c' then ['\\', 'f']
  else if c = '\x0d' then ['\\', 'r']
  else if c.toNat < 0x20 then
    ['\\', 'u', '0', '0', hexDigit (c.toNat / 16), hexDigit (c.toNat % 16)]
  else [c]

/-- A string between its quotes. -/
def quote (s : Text) : Text :=
  '"' :: s.flatMap escape ++ ['"']

/-- The white space of a style: in front of an item or a closing bracket at a given depth, and
behind a colon. -/
structure Style where
  gap : (depth : Nat) → Text
  colon : Text

/-- No white space. -/
def Style.compact : Style where
  gap _ := []
  colon := [':']

/-- A line per item, two spaces for each level. -/
def Style.pretty : Style where
  gap depth := '\n' :: List.replicate (2 * depth) ' '
  colon := [':', ' ']

mutual

/-- The text of a value that stands at a given depth. -/
def write (style : Style) (depth : Nat) : Json → Text
  | .null => ['n', 'u', 'l', 'l']
  | .bool true => ['t', 'r', 'u', 'e']
  | .bool false => ['f', 'a', 'l', 's', 'e']
  | .number n => n.json
  | .text s => quote s
  | .array [] => ['[', ']']
  | .array (item :: items) =>
    '[' :: style.gap (depth + 1) ++ write style (depth + 1) item
      ++ writeItems style (depth + 1) items ++ style.gap depth ++ [']']
  | .object [] => ['\x7b', '\x7d']
  | .object (member :: members) =>
    '\x7b' :: style.gap (depth + 1) ++ writeMember style (depth + 1) member
      ++ writeMembers style (depth + 1) members ++ style.gap depth ++ ['\x7d']

/-- The items behind the first, each behind a comma. -/
def writeItems (style : Style) (depth : Nat) : List Json → Text
  | [] => []
  | item :: items => ',' :: style.gap depth ++ write style depth item ++ writeItems style depth items

/-- A key, a colon and a value. -/
def writeMember (style : Style) (depth : Nat) : Text × Json → Text
  | (key, value) => quote key ++ style.colon ++ write style depth value

/-- The members behind the first, each behind a comma. -/
def writeMembers (style : Style) (depth : Nat) : List (Text × Json) → Text
  | [] => []
  | member :: members =>
    ',' :: style.gap depth ++ writeMember style depth member ++ writeMembers style depth members

end

/-- The text of a value in a given style. -/
def print (style : Style) (value : Json) : Text :=
  write style 0 value

end DocSearch.Json
