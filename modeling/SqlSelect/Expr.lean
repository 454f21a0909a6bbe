import SqlSelect.Node.Agreement

/-!
# Making expressions

A comparison may have a literal, a list of literals, a field or an expression on
its right. An expression or a subquery is used as a field or an operand by
wrapping it.
-/

namespace SqlSelect

/-- The right-hand side of a comparison. -/
inductive Comparand where
  | value (value : Value)
  | list (values : List Value)
  | field (field : Field)
  | expr (value : Expr)

namespace Comparand

def ofQuery (query : Select) : Comparand :=
  field (.subquery query)

/-- Whether two comparands are built alike and their literals are related. -/
def agree (related : Value → Value → Bool) : Comparand → Comparand → Bool
  | value a, value b => related a b
  | list as, list bs => as.isEqv bs related
  | field a, field b => a.agree related b
  | expr a, expr b => a.agree related b
  | _, _ => false

def eqv (sameInstant : DateTime → DateTime → Bool) (right other : Comparand) : Bool :=
  agree (Value.eqv sameInstant) right other

end Comparand

namespace Expr

def compare (op : Operator) : Comparand → Expr
  | .value value => .compareValue op value
  | .list values => .compareList op values
  | .field field => .compareField op field
  | .expr value => .compareExpr op value

def isNull : Expr := .nullTest false

def isNotNull : Expr := .nullTest true

def existsIn (query : Select) : Expr :=
  .existsTest query false

def notExistsIn (query : Select) : Expr :=
  .existsTest query true

def coalesce (arguments : List Operand) : Expr :=
  Node.coalesce (.ofList arguments)

def jsonObject (members : List (String × Field)) : Expr :=
  Node.jsonObject (.ofList (members.map fun member ↦ .member member.1 member.2))

end Expr

namespace Operand

def ofExpr (value : Expr) : Operand :=
  .inline (.computed value)

def ofQuery (query : Select) : Operand :=
  .inline (.subquery query)

end Operand

namespace Expr

/-- The elements gathered into a JSON array, or the fallback where there are none. -/
def jsonArrayOr (element : Field) (fallback : Operand) : Expr :=
  coalesce [Operand.ofExpr (.jsonArray element), fallback]

end Expr

end SqlSelect
