import DocSearch.Query.Error
import DocSearch.Query.Operator
import DocSearch.Text.Blank

/-!
# Query — tokens

A query is split at blank characters into groups, except that no split happens between quotes
(`splitGroups`).  Each group is one token: a field, an operator, and a raw value that may stand
between quotes (`Token.ofGroup`).  The operator is the first in the group, wherever it stands.

A quote that is still open at the end of the query is found while splitting, and so before any
fault within a group; otherwise the first faulty group is reported (`tokenize`).
-/

namespace DocSearch.Query

/-- A group taken apart. -/
structure Token where
  field : Text
  operator : Operator
  raw : Text
  quoted : Bool
  deriving DecidableEq

/-- The groups of a text, the first of them begun with the reversed characters `started`, inside
a pair of quotes or not. -/
def splitFrom (quoted : Bool) (started : Text) : Text → Except Error (List Text)
  | [] =>
    if started.isEmpty then .ok []
    else if quoted then .error (.malformed started.reverse .unterminatedQuote)
    else .ok [started.reverse]
  | c :: s =>
    let quoted := if c = '"' then !quoted else quoted
    if isBlank c && !quoted then
      if started.isEmpty then splitFrom quoted [] s
      else (splitFrom quoted [] s).map (started.reverse :: ·)
    else splitFrom quoted (c :: started) s

/-- The groups of a query. -/
def splitGroups (query : Text) : Except Error (List Text) :=
  splitFrom false [] query

/-- A group split at its first operator. -/
def splitOperator? : Text → Option (Text × Operator × Text)
  | [] => none
  | c :: s =>
    match Operator.atFront? (c :: s) with
    | some (operator, rest) => some ([], operator, rest)
    | none => (splitOperator? s).map fun (field, operator, rest) => (c :: field, operator, rest)

/-- A field, an operator and the rest make up the group. -/
theorem eq_append_of_splitOperator? {group field rest : Text} {operator : Operator}
    (h : splitOperator? group = some (field, operator, rest)) :
    group = field ++ operator.symbol ++ rest := by
  induction group generalizing field with
  | nil => simp [splitOperator?] at h
  | cons c s ih =>
    unfold splitOperator? at h
    split at h
    · next hfront =>
      cases h
      exact Operator.eq_symbol_append hfront
    · simp only [Option.map_eq_some_iff, Prod.exists, Prod.mk.injEq] at h
      obtain ⟨field, _, _, hs, rfl, rfl, rfl⟩ := h
      simp [ih hs]

/-- The raw value behind an operator, and whether it stood between quotes. -/
def rawValue : Text → Except Fault (Text × Bool)
  | [] => .error .emptyValue
  | c :: s =>
    if c = '"' then
      match Text.before? '"' s with
      | none => .error .unterminatedQuote
      | some inner => if '"' ∈ inner then .error .strayQuote else .ok (inner, true)
    else if '"' ∈ s then .error .strayQuote
    else .ok (c :: s, false)

/-- The token that a group is, or its fault. -/
def Token.ofGroup (group : Text) : Except Fault Token :=
  match splitOperator? group with
  | none => .error .noOperator
  | some (field, operator, rest) =>
    if field.isEmpty then .error .emptyField
    else if field.any fun c => Operator.isSymbolChar c || c = '"' then .error .fieldCharacter
    else (rawValue rest).map fun (raw, quoted) => ⟨field, operator, raw, quoted⟩

/-- The tokens of a query, or what is wrong with it. -/
def tokenize (query : Text) : Except Error (List Token) := do
  let groups ← splitGroups query
  groups.mapM fun group => (Token.ofGroup group).mapError (.malformed group)

end DocSearch.Query
