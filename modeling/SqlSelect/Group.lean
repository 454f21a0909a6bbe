import SqlSelect.Expr
import SqlSelect.Render

/-!
# Condition groups

A group is filled one entry at a time, each with its conjunction and a criterion:
what is asked may be a ready condition or group, or a field with what it is
compared with.
-/

namespace SqlSelect

namespace Condition

def compare (field : Field) (op : Operator) (right : Comparand) : Condition :=
  .paired field (Expr.compare op right)

/-- Without an operator, an expression is said of the field as it is, a list asks for membership
and anything else for equality. -/
def implied (field : Field) : Comparand → Condition
  | .expr value => .paired field value
  | .list values => compare field .isIn (.list values)
  | right => compare field .eq right

end Condition

inductive Predicate where
  | condition (condition : Condition)
  | group (group : Group)

namespace Predicate

def ofExpr (value : Expr) : Predicate :=
  condition (.standalone value)

def entry (conjunction : Conjunction) : Predicate → Node (.one .entry)
  | condition one => .single conjunction one
  | group many => .nested conjunction many

end Predicate

/-- The ways to say what is asked of a row. -/
inductive Criterion where
  | implied (field : Field) (right : Comparand)
  | compare (field : Field) (op : Operator) (right : Comparand)
  | predicate (predicate : Predicate)

namespace Criterion

def toPredicate : Criterion → Predicate
  | implied field right => .condition (.implied field right)
  | compare field op right => .condition (.compare field op right)
  | predicate asked => asked

end Criterion

namespace Group

def empty : Group := .nil

def add (group : Group) (conjunction : Conjunction) (criterion : Criterion) : Group :=
  group.push (criterion.toPredicate.entry conjunction)

def ofCriteria (criteria : List (Conjunction × Criterion)) : Group :=
  criteria.foldl (fun group criterion ↦ group.add criterion.1 criterion.2) empty

/-- The text of a group that stands alone, if any of its entries is written. -/
def render (style : Style) (group : Group) : Rendering (Option String) :=
  Layout.group style group.conjunctions <$> Node.render style group

def toSqlWith (group : Group) (options : Options) :
    Except BuildError (Prepared (Option String)) :=
  let style := options.resolve
  prepare style.placeholder (render style group)

def toSql (group : Group) : Except BuildError (Prepared (Option String)) :=
  toSqlWith group Options.empty

end Group

end SqlSelect
