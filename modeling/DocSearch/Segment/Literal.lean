/-!
# Segments — string literals

Between objects and inside them an array may hold string literals, in double or single quotes,
in which a backslash takes the next character along.  A `Literal` says where a reader is with
respect to them; `Literal.step` is what one character does to that.

Where quotes are not heeded (`Mode.quoteBlind`) a reader is outside every literal, always.
-/

namespace DocSearch.Segment

/-- Whether string literals are heeded. -/
inductive Mode where
  | quoteAware
  | quoteBlind
  deriving DecidableEq

/-- Where a reader is with respect to string literals. -/
inductive Literal where
  | outside
  /-- inside a literal that the given quote closes -/
  | inside (quote : Char)
  /-- inside such a literal, just behind a backslash -/
  | escaped (quote : Char)
  deriving DecidableEq

/-- The two characters that open a literal. -/
def isQuote (c : Char) : Bool :=
  c = '"' || c = '\''

namespace Literal

/-- Where a reader is behind one more character. -/
def step (mode : Mode) (literal : Literal) (c : Char) : Literal :=
  match mode, literal with
  | .quoteBlind, _ => literal
  | .quoteAware, outside => if isQuote c then inside c else outside
  | .quoteAware, inside quote =>
    if c = '\\' then escaped quote else if c = quote then outside else inside quote
  | .quoteAware, escaped quote => inside quote

/-- Where a reader is behind a text. -/
def run (mode : Mode) (literal : Literal) (s : List Char) : Literal :=
  s.foldl (step mode) literal

theorem run_append (mode : Mode) (literal : Literal) (s t : List Char) :
    run mode literal (s ++ t) = run mode (run mode literal s) t :=
  List.foldl_append

/-- Whether a character counts as itself: it neither stands in a literal nor opens one. -/
def isPlain (mode : Mode) (literal : Literal) (c : Char) : Bool :=
  literal = outside && step mode literal c = outside

end Literal

end DocSearch.Segment
