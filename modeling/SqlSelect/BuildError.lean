import SqlSelect.Keyword.Operator

/-!
# Ill-formed statements

The reasons for which a statement has no text.
-/

namespace SqlSelect

inductive BuildError where
  | tableNotSet
  /-- The operator compares with a list, and something else is given. -/
  | listValueRequired (op : Operator)
  | listValueNotSupported (op : Operator)
  | betweenArity (count : Nat)
  | emptyValueList (op : Operator)
  | emptyCoalesce
  | emptyCaseCondition
deriving DecidableEq, Repr

namespace BuildError

def message : BuildError → String
  | tableNotSet => "table not set"
  | listValueRequired op => "operator \"" ++ op.name ++ "\" requires an array value"
  | listValueNotSupported op => "operator \"" ++ op.name ++ "\" does not support array value"
  | betweenArity count =>
    "operator \"between\" requires exactly 2 values, got " ++ toString count
  | emptyValueList op => "operator \"" ++ op.name ++ "\" requires at least one value"
  | emptyCoalesce => "coalesce requires at least one argument"
  | emptyCaseCondition => "case expression condition group is empty"

end BuildError

end SqlSelect
