import DocSearch.Text.Basic

/-!
# TOML — strings

Strings stand in double quotes, where backslashes escape, or in single quotes, where they do not.
Three quotes in place of one allow line ends inside; a line end just behind the opening is then
no part of the string, and one or two quotes may stand just in front of the closing.

Of the control characters only the tab may stand in a string as it is.
-/

namespace DocSearch.Toml

/-- The line end at the front of a text, and the rest. -/
def lineEnd? : Text → Option (Text × Text)
  | '\n' :: s => some (['\n'], s)
  | '\r' :: '\n' :: s => some (['\r', '\n'], s)
  | _ => none

/-- Spaces and tabs. -/
def isSpace (c : Char) : Bool :=
  c = ' ' || c = '\t'

/-- The characters that may stand in strings and comments as they are. -/
def isPlainChar (c : Char) : Bool :=
  c = '\t' || (0x20 ≤ c.toNat && c.toNat ≠ 0x7F)

/-- The value of so many hexadecimal digits, counted on from `value`, and the rest. -/
def hexFrom? (value : Nat) : (digits : Nat) → Text → Option (Nat × Text)
  | 0, s => some (value, s)
  | _ + 1, [] => none
  | digits + 1, c :: s =>
    if c.isDigit || ('a' ≤ c && c ≤ 'f') then hexFrom? (16 * value + hexValue c) digits s
    else if 'A' ≤ c && c ≤ 'F' then hexFrom? (16 * value + hexValue c) digits s
    else none
where
  /-- The value of a hexadecimal digit. -/
  hexValue (c : Char) : Nat :=
    if c.isDigit then c.toNat - 0x30 else if 'a' ≤ c then c.toNat - 0x61 + 10 else c.toNat - 0x41 + 10

/-- The character of so many hexadecimal digits, and the rest. -/
def hexChar? (digits : Nat) (s : Text) : Option (Char × Text) := do
  let (code, s) ← hexFrom? 0 digits s
  if h : code.isValidChar then some (Char.ofNatAux code h, s) else none

/-- The character of an escape, behind its backslash, and the rest. -/
def escape? : Text → Option (Char × Text)
  | [] => none
  | c :: s =>
    if c = '"' ∨ c = '\\' then some (c, s)
    else if c = 'b' then some ('\x08', s)
    else if c = 't' then some ('\t', s)
    else if c = 'n' then some ('\n', s)
    else if c = 'f' then some ('\x0c', s)
    else if c = 'r' then some ('\r', s)
    else if c = 'e' then some ('\x1b', s)
    else if c = 'x' then hexChar? 2 s
    else if c = 'u' then hexChar? 4 s
    else if c = 'U' then hexChar? 8 s
    else none

/-- A text without the spaces, tabs and line ends in front. -/
def skipBlank : Text → Text
  | '\r' :: '\n' :: s => skipBlank s
  | c :: s => if isSpace c || c = '\n' then skipBlank s else c :: s
  | [] => []

/-- What follows a backslash at the end of a line, and all blanks behind it. -/
def continuation? (s : Text) : Option Text :=
  (lineEnd? (s.dropWhile isSpace)).map fun (_, s) => skipBlank s

/-- What a string of several lines ends with, from its closing quotes on: the quotes that belong
to it, and the rest. -/
def closing? (quote : Char) (s : Text) : Option (Text × Text) := do
  let rest ← Text.after? [quote, quote, quote] s
  let own := (rest.take 2).takeWhile (· = quote)
  return (own, rest.drop own.length)

/-- The content of a string of one line behind its opening quote, in at most `limit` steps, and
the rest behind its closing quote. -/
def lineBody? (quote : Char) : (limit : Nat) → Text → Option (Text × Text)
  | 0, _ => none
  | _ + 1, [] => none
  | limit + 1, c :: s =>
    if c = quote then some ([], s)
    else if c = '\\' ∧ quote = '"' then do
      let (c, s) ← escape? s
      (lineBody? quote limit s).map fun (body, rest) => (c :: body, rest)
    else if isPlainChar c then (lineBody? quote limit s).map fun (body, rest) => (c :: body, rest)
    else none

/-- The content of a string of several lines, likewise. -/
def linesBody? (quote : Char) : (limit : Nat) → Text → Option (Text × Text)
  | 0, _ => none
  | _ + 1, [] => none
  | limit + 1, c :: s =>
    match closing? quote (c :: s), lineEnd? (c :: s) with
    | some found, _ => some found
    | none, some (ending, s) =>
      (linesBody? quote limit s).map fun (body, rest) => (ending ++ body, rest)
    | none, none =>
      if c = '\\' ∧ quote = '"' then
        match continuation? s with
        | some s => linesBody? quote limit s
        | none => do
          let (c, s) ← escape? s
          (linesBody? quote limit s).map fun (body, rest) => (c :: body, rest)
      else if isPlainChar c then
        (linesBody? quote limit s).map fun (body, rest) => (c :: body, rest)
      else none

/-- A string of one line, if the text begins with a quote. -/
def line? : Text → Option (Text × Text)
  | [] => none
  | c :: s => if c = '"' ∨ c = '\'' then lineBody? c (s.length + 1) s else none

/-- A string of either kind, if the text begins with a quote. -/
def string? (s : Text) : Option (Text × Text) :=
  match s with
  | [] => none
  | c :: _ =>
    match Text.after? [c, c, c] s with
    | none => line? s
    | some rest =>
      if c = '"' ∨ c = '\'' then
        let rest := match lineEnd? rest with
          | some (_, rest) => rest
          | none => rest
        linesBody? c (rest.length + 1) rest
      else none

end DocSearch.Toml
