import DocSearch.Query.Expression

/-!
# Query — matching documents

A document matches an expression when every predicate holds of it.  Fields are looked up at the
top level of an object only; a document that is no object has none.

Two operators ask whether a field's value is equal to the given one, and four how it stands to it
(`Operator.holds`).  A missing field, and a value of another kind, is neither equal to a value nor in
any order to it; so of the six only `!:` holds of them.
-/

namespace DocSearch.Query

/-- Whether an operator holds of the value of a field, or of its absence, and a given value. -/
def Operator.holds (operator : Operator) (actual : Option Json) (expected : Value) : Bool :=
  match operator with
  | equals => actual.any (Value.isEqual · expected)
  | notEquals => !actual.any (Value.isEqual · expected)
  | greaterThan => actual.bind (Value.order? · expected) = some .gt
  | greaterOrEqual =>
    let o := actual.bind (Value.order? · expected)
    o = some .gt ∨ o = some .eq
  | lessThan => actual.bind (Value.order? · expected) = some .lt
  | lessOrEqual =>
    let o := actual.bind (Value.order? · expected)
    o = some .lt ∨ o = some .eq

/-- Whether a predicate holds of a document. -/
def Predicate.matches (p : Predicate) (document : Json) : Bool :=
  p.operator.holds (document.field? p.field) p.value

/-- Whether all predicates of an expression hold of a document. -/
def Expression.matches (e : Expression) (document : Json) : Bool :=
  e.predicates.all (·.matches document)

/-- The documents that match, in their order. -/
def Expression.select (e : Expression) (documents : List Json) : List Json :=
  documents.filter e.matches

end DocSearch.Query
