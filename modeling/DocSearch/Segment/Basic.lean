import DocSearch.Segment.Literal
import DocSearch.Text.Blank

/-!
# Segments — the objects of an array

An array of objects is a text between square brackets.  Its segments are the texts of its
outermost objects, from an opening brace to the brace that closes it, word for word; the text
around them is dropped.  Nothing is asked of that text, or of the objects, but that braces
balance: the array need not be JSON.  Braces in string literals do not count where quotes are
heeded.

Reading starts at the first opening brace, in a literal or not, and outside every literal.  It
stops at a closing brace that closes nothing; an open literal and open objects are found at the
end, in this order.
-/

namespace DocSearch.Segment

/-- Why a text is no array of objects. -/
inductive Error where
  /-- no square brackets around it -/
  | notBracketed
  /-- a closing brace that closes nothing, behind so many bytes of the trimmed text -/
  | unbalanced (offset : Nat)
  /-- a string literal open at the end -/
  | openLiteral
  /-- so many objects open at the end -/
  | openObjects (count : Nat)
  deriving DecidableEq

/-- What is wrong, in words. -/
def Error.message (e : Error) : String :=
  "invalid array syntax: " ++
    match e with
    | notBracketed => "input must start with `[` and end with `]`"
    | unbalanced offset => "unbalanced `\x7d` at offset " ++ toString offset
    | openLiteral => "unterminated string literal"
    | openObjects count => "unbalanced braces: " ++ toString count ++ " object(s) left open"

/-- The objects of a text that stands behind `offset` bytes, inside `depth` objects, of the
outermost of which the reversed characters `started` have been read. -/
def scan (mode : Mode) (literal : Literal) (depth : Nat) (started : Text) (offset : Nat) :
    Text → Except Error (List Text)
  | [] =>
    if literal ≠ .outside then .error .openLiteral
    else if depth ≠ 0 then .error (.openObjects depth)
    else .ok []
  | c :: s =>
    let behind := offset + c.utf8Size
    if literal.isPlain mode c ∧ c = '\x7b' then
      scan mode .outside (depth + 1) (c :: started) behind s
    else if literal.isPlain mode c ∧ c = '\x7d' then
      match depth with
      | 0 => .error (.unbalanced offset)
      | 1 => (scan mode .outside 0 [] behind s).map ((c :: started).reverse :: ·)
      | depth + 2 => scan mode .outside (depth + 1) (c :: started) behind s
    else
      scan mode (literal.step mode c) depth (if depth = 0 then [] else c :: started) behind s

/-- The text between the square brackets of a trimmed text. -/
def inner? : Text → Option Text
  | '[' :: s => Text.before? ']' s
  | _ => none

/-- The objects of an array, or what is wrong with it. -/
def segments (mode : Mode) (input : Text) : Except Error (List Text) :=
  match inner? input.trim with
  | none => .error .notBracketed
  | some inner =>
    let lead := inner.takeWhile (· ≠ '\x7b')
    let body := inner.dropWhile (· ≠ '\x7b')
    scan mode .outside 0 [] (1 + Text.byteSize lead) body

/-- Text around objects is dropped; a brace in a literal counts only where quotes are not
heeded. -/
example : segments .quoteAware "[1, \x7ba: '\x7d'\x7d x \x7b\x7d]".toList
      = .ok ["\x7ba: '\x7d'\x7d".toList, "\x7b\x7d".toList]
    ∧ segments .quoteBlind "[1, \x7ba: '\x7d'\x7d]".toList = .error (.unbalanced 11) :=
  ⟨rfl, rfl⟩

end DocSearch.Segment
