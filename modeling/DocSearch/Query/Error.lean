import DocSearch.Text.Basic

/-!
# Query — what can be wrong with a query

A query is refused because it is blank, or because one of its groups is no predicate; then the
error names the group and the fault.
-/

namespace DocSearch.Query

/-- Why a group of characters is no predicate. -/
inductive Fault where
  /-- no operator in it -/
  | noOperator
  /-- nothing in front of the operator -/
  | emptyField
  /-- a symbol character or a quote in front of the operator -/
  | fieldCharacter
  /-- nothing behind the operator -/
  | emptyValue
  /-- a quote that is not closed -/
  | unterminatedQuote
  /-- a quote elsewhere than at the two ends of the value -/
  | strayQuote
  deriving DecidableEq

/-- A fault in words. -/
def Fault.message : Fault → String
  | noOperator => "no operator"
  | emptyField => "empty field"
  | fieldCharacter => "invalid character in field"
  | emptyValue => "empty value"
  | unterminatedQuote => "unterminated quote"
  | strayQuote => "unexpected quote in value"

/-- What is wrong with a query. -/
inductive Error where
  | blank
  | malformed (group : Text) (fault : Fault)
  deriving DecidableEq

/-- What is wrong, in words. -/
def Error.message : Error → String
  | blank => "empty query expression"
  | malformed group fault =>
    "malformed query syntax in `" ++ String.ofList group ++ "`: " ++ fault.message

end DocSearch.Query
