import SqlSelect.Text.Blank
import SqlSelect.Text.Vocabulary

/-!
# Comparison operators

The two spellings of inequality are two operators, since each is written back
as it was chosen.
-/

namespace SqlSelect

inductive Operator where
  | eq
  /-- Inequality written `!=`. -/
  | ne
  /-- Inequality written `<>`. -/
  | unequal
  | lt
  | le
  | ge
  | gt
  | isIn
  | notIn
  | like
  | notLike
  | between
  | regexp
deriving DecidableEq, Repr

namespace Operator

def sql : Operator → String
  | eq => "="
  | ne => "!="
  | unequal => "<>"
  | lt => "<"
  | le => "<="
  | ge => ">="
  | gt => ">"
  | isIn => "IN"
  | notIn => "NOT IN"
  | like => "LIKE"
  | notLike => "NOT LIKE"
  | between => "BETWEEN"
  | regexp => "REGEXP"

def all : List Operator :=
  [eq, ne, unequal, lt, le, ge, gt, isIn, notIn, like, notLike, between, regexp]

theorem mem_all (op : Operator) : op ∈ all := by
  cases op <;> decide

/-- How messages call the operator. -/
def name : Operator → String
  | isIn => "in"
  | notIn => "not in"
  | like => "like"
  | notLike => "not like"
  | between => "between"
  | regexp => "regexp"
  | op => op.sql

/-- The operators whose right-hand side is a list of values. -/
def takesList : Operator → Bool
  | isIn | notIn | between => true
  | _ => false

def spellings : List (String × Operator) :=
  [("=", eq), ("!=", ne), ("<>", unequal), ("<", lt), ("<=", le), (">=", ge), (">", gt),
    ("in", isIn), ("not in", notIn), ("like", like), ("not like", notLike),
    ("between", between), ("regexp", regexp)]

/-- Reads an operator; blanks around it do not count. -/
def parse (text : String) : Except Text.UnknownWord Operator :=
  Text.Vocabulary.operator.require text (Text.lookup? spellings (Text.trim text))

end Operator

end SqlSelect
