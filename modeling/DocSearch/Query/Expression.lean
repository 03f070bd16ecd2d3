import DocSearch.Query.Token
import DocSearch.Query.Value

/-!
# Query — expressions

A predicate compares a field with a value.  An expression is the conjunction of one or more
predicates, in the order in which the query has them.

`compile` makes an expression of a query, and `Expression.plain` writes one as a query.
-/

namespace DocSearch.Query

/-- A field, an operator and a value. -/
structure Predicate where
  field : Text
  operator : Operator
  value : Value
  deriving DecidableEq

namespace Predicate

/-- The predicate of a token. -/
def ofToken (token : Token) : Predicate :=
  ⟨token.field, token.operator, .classify token.raw token.quoted⟩

/-- The predicate as it is written in a query. -/
def plain (p : Predicate) : Text :=
  p.field ++ p.operator.symbol ++ p.value.plain

/-- Two predicates are the same when their fields, operators and values are. -/
def same (p q : Predicate) : Bool :=
  p.field = q.field && p.operator = q.operator && p.value.same q.value

end Predicate

/-- One or more predicates, all of which have to hold. -/
structure Expression where
  predicates : List Predicate
  nonempty : predicates ≠ []
  deriving DecidableEq

namespace Expression

/-- The conjunction of some predicates, if there are any. -/
def ofList? (predicates : List Predicate) : Option Expression :=
  if h : predicates ≠ [] then some ⟨predicates, h⟩ else none

/-- The expression as a query: its predicates with a space between neighbours. -/
def plain (e : Expression) : Text :=
  List.intercalate [' '] (e.predicates.map Predicate.plain)

/-- Two expressions are the same when they have the same predicates in the same order. -/
def same (e f : Expression) : Bool :=
  e.predicates.length = f.predicates.length
    && (e.predicates.zip f.predicates).all fun (p, q) => p.same q

end Expression

/-- The expression of a query, or what is wrong with it. -/
def compile (query : Text) : Except Error Expression :=
  if query.trim.isEmpty then .error .blank
  else do
    let tokens ← tokenize query
    match Expression.ofList? (tokens.map Predicate.ofToken) with
    | some expression => .ok expression
    | none => .error .blank

end DocSearch.Query
