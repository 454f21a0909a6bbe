import SqlSelect.Node.Basic

/-!
# Agreement of nodes

Two nodes agree when they are built alike, with equal text, operators and
options, and related literals at corresponding places. Equality of nodes takes
the equality of literals for the relation; sameness of shape takes the relation
that always holds.
-/

namespace SqlSelect.Node

/-- Agreement up to a relation of literals. Lists of literals agree element by element. -/
def agree (related : Value → Value → Bool) : {kind : Kind} → Node kind → Node kind → Bool
  | _, name a => fun | name b => a == b | _ => false
  | _, verbatim a => fun | verbatim b => a == b | _ => false
  | _, computed a => fun | computed b => agree related a b | _ => false
  | _, subquery a => fun | subquery b => agree related a b | _ => false
  | _, inline a => fun | inline b => agree related a b | _ => false
  | _, literal a => fun | literal b => related a b | _ => false
  | _, compareValue op a => fun
    | compareValue op' b => op == op' && related a b
    | _ => false
  | _, compareList op as => fun
    | compareList op' bs => op == op' && as.isEqv bs related
    | _ => false
  | _, compareField op a => fun
    | compareField op' b => op == op' && agree related a b
    | _ => false
  | _, compareExpr op a => fun
    | compareExpr op' b => op == op' && agree related a b
    | _ => false
  | _, nullTest a => fun | nullTest b => a == b | _ => false
  | _, existsTest a negated => fun
    | existsTest b negated' => agree related a b && negated == negated'
    | _ => false
  | _, caseWhen a as x => fun
    | caseWhen b bs y => agree related a b && agree related as bs && agree related x y
    | _ => false
  | _, coalesce as => fun | coalesce bs => agree related as bs | _ => false
  | _, jsonObject as => fun | jsonObject bs => agree related as bs | _ => false
  | _, jsonArray a => fun | jsonArray b => agree related a b | _ => false
  | _, raw a => fun | raw b => a == b | _ => false
  | _, paired a x => fun | paired b y => agree related a b && agree related x y | _ => false
  | _, standalone a => fun | standalone b => agree related a b | _ => false
  | _, single j a => fun | single j' b => j == j' && agree related a b | _ => false
  | _, nested j as => fun | nested j' bs => j == j' && agree related as bs | _ => false
  | _, compareTest a x => fun
    | compareTest b y => agree related a b && agree related x y
    | _ => false
  | _, conditionTest a => fun | conditionTest b => agree related a b | _ => false
  | _, groupTest as => fun | groupTest bs => agree related as bs | _ => false
  | _, branch a x => fun | branch b y => agree related a b && agree related x y | _ => false
  | _, member key a => fun | member key' b => key == key' && agree related a b | _ => false
  | _, column a x => fun | column b y => agree related a b && x == y | _ => false
  | _, namedTable a x => fun | namedTable b y => a == b && x == y | _ => false
  | _, derivedTable a x => fun | derivedTable b y => agree related a b && x == y | _ => false
  | _, join kind a x => fun
    | join kind' b y => kind == kind' && agree related a b && x == y
    | _ => false
  | _, ordering a x => fun | ordering b y => agree related a b && x == y | _ => false
  | _, select columns source joins filter groupKeys having orderings attributes => fun
    | select columns' source' joins' filter' groupKeys' having' orderings' attributes' =>
      agree related columns columns' && agree related source source' &&
        agree related joins joins' && agree related filter filter' &&
        agree related groupKeys groupKeys' && agree related having having' &&
        agree related orderings orderings' && attributes == attributes'
    | _ => false
  | _, nil => fun | nil => true | _ => false
  | _, cons a as => fun | cons b bs => agree related a b && agree related as bs | _ => false
  | _, absent => fun | absent => true | _ => false
  | _, present a => fun | present b => agree related a b | _ => false

/-- Equality of nodes, with literals compared by `Value.eqv`. -/
def eqv (sameInstant : DateTime → DateTime → Bool) {kind : Kind} (node other : Node kind) : Bool :=
  agree (Value.eqv sameInstant) node other

/-- Whether two nodes differ at most in their literals. -/
def sameShape {kind : Kind} (node other : Node kind) : Bool :=
  agree (fun _ _ ↦ true) node other

end SqlSelect.Node
