import SqlSelect.Group

/-!
# CASE expressions

An expression has at least one branch. A comparison with the null literal that
asks for equality or inequality is turned into a test for null; it is the only
place where the value of a literal matters to the text.
-/

namespace SqlSelect

/-- What is asked in a WHEN. -/
inductive When where
  | compare (field : Field) (op : Operator) (right : Comparand)
  | asserts (field : Field) (assertion : Expr)
  | group (group : Group)

namespace When

/-- A comparison, with null asked for by a test of its own. -/
def comparison (op : Operator) (right : Comparand) : Expr :=
  match op, right with
  | .eq, .value .null => .nullTest false
  | .ne, .value .null | .unequal, .value .null => .nullTest true
  | op, right => Expr.compare op right

def test : When → CaseTest
  | compare field op right => .compareTest field (comparison op right)
  | asserts field assertion => .conditionTest (.paired field assertion)
  | group entries => .groupTest entries

end When

namespace Branch

def make (condition : When) (result : Operand) : Branch :=
  .branch condition.test result

end Branch

namespace Expr

def caseWhen (first : Branch) (rest : List Branch) (otherwise : Option Operand) : Expr :=
  Node.caseWhen first (.ofList rest) (.ofOption otherwise)

end Expr

end SqlSelect
