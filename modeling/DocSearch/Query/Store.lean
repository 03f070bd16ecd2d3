import DocSearch.Query.Expression

/-!
# Query — filters and records

An expression has two forms in JSON.  Its filter is what a document store takes: a predicate is
an object from its field to the value, or to the value under the operator's key, and several
predicates are a list under `$and`, so that a field may recur (`Expression.filter`).  Its record
lists the predicates with their field, operator and value each by name (`Expression.record`).
-/

namespace DocSearch.Query

/-- The filter of one predicate. -/
def Predicate.filter (p : Predicate) : Json :=
  .single p.field <|
    match p.operator.storeKey? with
    | none => p.value.toJson
    | some key => .single key p.value.toJson

/-- The filter of an expression. -/
def Expression.filter (e : Expression) : Json :=
  match e.predicates with
  | [p] => p.filter
  | ps => .single ['$', 'a', 'n', 'd'] (.array (ps.map Predicate.filter))

/-- A predicate by its parts. -/
def Predicate.record (p : Predicate) : Json :=
  .object [("field".toList, .text p.field), ("operator".toList, .text p.operator.name),
    ("value".toList, p.value.toJson)]

/-- The predicates of an expression by their parts. -/
def Expression.record (e : Expression) : Json :=
  .array (e.predicates.map Predicate.record)

end DocSearch.Query
