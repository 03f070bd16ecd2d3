import DocSearch.Toml.Quoted
import DocSearch.Toml.Scalar
import DocSearch.Toml.Table

/-!
# TOML — the reader

`read?` gives the entries of a document's table, by the grammar of TOML 1.1 with these
differences: headers of lists of tables (`[[…]]`) are refused; lists and braces nest at most
`maxDepth` deep, and a path has at most as many keys; between braces lines may end, and comments
stand, on either side of an equals sign.  A byte order mark in front is skipped.
-/

namespace DocSearch.Toml

/-- How deep lists and tables in braces may nest, and how many keys a path may have. -/
def maxDepth : Nat := 80

/-! ### Between values -/

/-- A text without the spaces and tabs in front. -/
def skipSpace (s : Text) : Text :=
  s.dropWhile isSpace

/-- What follows a comment, if the text begins with one, up to the end of the line. -/
def skipComment : Text → Text
  | '#' :: s => s.dropWhile isPlainChar
  | s => s

/-- What follows the line, of which only spaces and a comment may be left. -/
def afterLine? (s : Text) : Option Text :=
  match skipComment (skipSpace s) with
  | [] => some []
  | s => (lineEnd? s).map (·.2)

/-- A text without the spaces, comments and line ends in front, of which there are at most
`limit`. -/
def skipLines : (limit : Nat) → Text → Text
  | 0, s => s
  | limit + 1, s =>
    match lineEnd? (skipComment (skipSpace s)) with
    | some (_, rest) => skipLines limit rest
    | none => skipSpace s

/-- A text without all spaces, comments and line ends in front. -/
def skipAll (s : Text) : Text :=
  skipLines s.length s

/-! ### Keys -/

/-- The characters of keys without quotes. -/
def isKeyChar (c : Char) : Bool :=
  c.isAlphanum || c = '_' || c = '-'

/-- A key between dots. -/
def key? (s : Text) : Option (Text × Text) :=
  match line? s with
  | some found => some found
  | none =>
    let key := s.takeWhile isKeyChar
    if key.isEmpty then none else some (key, s.dropWhile isKeyChar)

/-- A path of at most `limit` keys with dots between them, and what follows it and any spaces. -/
def path? : (limit : Nat) → Text → Option (List Text × Text)
  | 0, _ => none
  | limit + 1, s => do
    let (key, s) ← key? (skipSpace s)
    match skipSpace s with
    | '.' :: s => (path? limit s).map fun (keys, s) => (key :: keys, s)
    | s => some ([key], s)

/-! ### Values -/

/-- A word. -/
def word? (s : Text) : Option (Value × Text) :=
  let (word, rest) := splitWord s
  if word = ['t', 'r', 'u', 'e'] then some (.bool true, rest)
  else if word = ['f', 'a', 'l', 's', 'e'] then some (.bool false, rest)
  else if isInteger word || isFloat word then some (.number, rest)
  else if isTime word then some (.time, rest)
  else none

/-- Things with commas between them, at most `limit`, up to a closing bracket.  A comma may
follow the last, and lines may end anywhere between. -/
def sequence? {α : Type} (thing? : Text → Option (α × Text)) (close : Char) :
    (limit : Nat) → Text → Option (List α × Text)
  | 0, _ => none
  | limit + 1, s =>
    match skipAll s with
    | [] => none
    | c :: s =>
      if c = close then some ([], s)
      else do
        let (thing, s) ← thing? (c :: s)
        match skipAll s with
        | [] => none
        | c :: s =>
          if c = close then some ([thing], s)
          else if c = ',' then
            (sequence? thing? close limit s).map fun (things, s) => (thing :: things, s)
          else none

/-- A path, an equals sign and a value, given what may be skipped between them. -/
def pair? (skip : Text → Text) (value? : Text → Option (Value × Text)) (s : Text) :
    Option ((List Text × Value) × Text) := do
  let (path, s) ← path? maxDepth s
  let (value, s) ← value? (skip (← Text.after? ['='] (skip s)))
  return ((path, value), s)

/-- A value in which lists and tables nest at most `depth` deep; the text begins with it. -/
def value? (depth : Nat) (s : Text) : Option (Value × Text) :=
  match depth, s with
  | _, [] => none
  | depth, c :: s =>
    if c = '"' ∨ c = '\'' then (string? (c :: s)).map fun (body, s) => (.text body, s)
    else if c = '[' then
      match depth with
      | 0 => none
      | depth + 1 =>
        (sequence? (value? depth) ']' (s.length + 1) s).map fun (items, s) => (.array items, s)
    else if c = '\x7b' then
      match depth with
      | 0 => none
      | depth + 1 => do
        let (pairs, s) ← sequence? (pair? skipAll (value? depth)) '\x7d' (s.length + 1) s
        let entries ← pairs.foldlM (fun entries (path, value) => Entries.assign? [] path value entries) []
        return (.table .inline entries, s)
    else word? (c :: s)

/-! ### Documents -/

/-- The statements of a text, at most `limit`, carried out on the root's entries; the table of
`header` is in hand. -/
def statements? : (limit : Nat) → (header : List Text) → (root : Entries) → Text → Option Entries
  | 0, _, _, _ => none
  | limit + 1, header, root, s =>
    match skipAll s with
    | [] => some root
    | '#' :: s => if (skipComment ('#' :: s)).isEmpty then some root else none
    | '[' :: s => do
      let (path, s) ← path? maxDepth s
      let s ← afterLine? (← Text.after? [']'] s)
      statements? limit path (← root.openTable? path) s
    | s => do
      let ((path, value), s) ← pair? skipSpace (value? maxDepth) s
      let s ← afterLine? s
      statements? limit header (← root.assign? header path value) s

/-- The entries of a document. -/
def read? (s : Text) : Option Entries :=
  let s := (Text.after? ['\ufeff'] s).getD s
  statements? (s.length + 1) [] [] s

end DocSearch.Toml
