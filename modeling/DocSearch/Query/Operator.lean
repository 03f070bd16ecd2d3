import DocSearch.Text.Basic

/-!
# Query — comparison operators

A predicate compares a field with a value by one of six operators.  Where a text begins with the
symbols of two of them, the longer is meant (`Operator.atFront?`): `>=5` is never `>` in front of
`=5`.
-/

namespace DocSearch.Query

/-- The six ways to compare. -/
inductive Operator where
  | equals
  | notEquals
  | greaterThan
  | greaterOrEqual
  | lessThan
  | lessOrEqual
  deriving DecidableEq

namespace Operator

/-- The operator as it is written in a query. -/
def symbol : Operator → Text
  | equals => [':']
  | notEquals => ['!', ':']
  | greaterThan => ['>']
  | greaterOrEqual => ['>', '=']
  | lessThan => ['<']
  | lessOrEqual => ['<', '=']

/-- The key that stands for the operator in a document store's filter.  Equality has none. -/
def storeKey? : Operator → Option Text
  | equals => none
  | notEquals => some ['$', 'n', 'e']
  | greaterThan => some ['$', 'g', 't']
  | greaterOrEqual => some ['$', 'g', 't', 'e']
  | lessThan => some ['$', 'l', 't']
  | lessOrEqual => some ['$', 'l', 't', 'e']

/-- The operator's name in a record of a predicate. -/
def name : Operator → Text
  | equals => "Equals".toList
  | notEquals => "NotEquals".toList
  | greaterThan => "GreaterThan".toList
  | greaterOrEqual => "GreaterOrEqual".toList
  | lessThan => "LessThan".toList
  | lessOrEqual => "LessOrEqual".toList

/-- All operators. -/
def all : List Operator :=
  [equals, notEquals, greaterThan, greaterOrEqual, lessThan, lessOrEqual]

/-- The operator of a given name. -/
def ofName? (name : Text) : Option Operator :=
  all.find? fun operator => operator.name = name

/-- The characters that symbols are made of.  No field name has one. -/
def isSymbolChar (c : Char) : Bool :=
  c = ':' || c = '!' || c = '>' || c = '<' || c = '='

/-- Symbols are made of symbol characters. -/
theorem isSymbolChar_of_mem {operator : Operator} {c : Char} (h : c ∈ operator.symbol) :
    isSymbolChar c = true := by
  cases operator <;> simp [symbol] at h <;> rcases h with rfl | rfl <;> decide

/-- The operator whose symbol a text begins with, the longest if there are two, and the rest. -/
def atFront? : Text → Option (Operator × Text)
  | [] => none
  | c :: s =>
    if c = ':' then some (equals, s)
    else match s with
      | [] => if c = '>' then some (greaterThan, s) else if c = '<' then some (lessThan, s) else none
      | d :: rest =>
        if c = '!' ∧ d = ':' then some (notEquals, rest)
        else if c = '>' then
          if d = '=' then some (greaterOrEqual, rest) else some (greaterThan, s)
        else if c = '<' then
          if d = '=' then some (lessOrEqual, rest) else some (lessThan, s)
        else none

/-- The operator found and the rest make up the text. -/
theorem eq_symbol_append {s rest : Text} {operator : Operator}
    (h : atFront? s = some (operator, rest)) : s = operator.symbol ++ rest := by
  unfold atFront? at h
  repeat' split at h
  all_goals simp only [Option.some.injEq, Prod.mk.injEq, reduceCtorEq] at h
  all_goals
    obtain ⟨rfl, rfl⟩ := h
    simp_all [symbol]

end Operator

end DocSearch.Query
