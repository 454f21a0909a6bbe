import SqlSelect.Select

/-!
# Calls that build a statement

Each call makes one step. Some differ only in what they spare the caller: an alias that
is not wanted, a kind of join that the name of the call says already, or the operator of
a condition.
-/

namespace SqlSelect

inductive Call where
  | setOptions (options : Options)
  | column (field : Field)
  | columnAs (field : Field) (label : String)
  | head (sql : String)
  | source (table : String)
  | sourceAs (table label : String)
  | sourceQuery (query : Select) (label : String)
  | join (kind : Option JoinKind) (table condition : String)
  | joinAs (kind : Option JoinKind) (table label condition : String)
  | joinQuery (kind : Option JoinKind) (query : Select) (label condition : String)
  | leftJoin (table condition : String)
  | leftJoinAs (table label condition : String)
  | leftJoinQuery (query : Select) (label condition : String)
  | innerJoinAs (table label condition : String)
  | rightJoinAs (table label condition : String)
  | filter (field : Field) (right : Comparand)
  | filterBy (field : Field) (op : Operator) (right : Comparand)
  | filterPredicate (predicate : Predicate)
  | having (field : Field) (right : Comparand)
  | havingBy (field : Field) (op : Operator) (right : Comparand)
  | havingPredicate (predicate : Predicate)
  | groupBy (field : Field)
  | orderBy (field : Field) (direction : OrderDirection)
  | limit (count : Nat)
  | offset (count : Nat)

namespace Call

def step : Call → Step
  | setOptions options => .options options
  | column field => .column field none
  | columnAs field label => .column field (some label)
  | head sql => .head sql
  | source table => .source (.namedTable table none)
  | sourceAs table label => .source (.namedTable table (some label))
  | sourceQuery query label => .source (.derivedTable query label)
  | join kind table condition => .join kind (.namedTable table none) condition
  | joinAs kind table label condition => .join kind (.namedTable table (some label)) condition
  | joinQuery kind query label condition => .join kind (.derivedTable query label) condition
  | leftJoin table condition => .join (some .left) (.namedTable table none) condition
  | leftJoinAs table label condition =>
    .join (some .left) (.namedTable table (some label)) condition
  | leftJoinQuery query label condition =>
    .join (some .left) (.derivedTable query label) condition
  | innerJoinAs table label condition =>
    .join (some .inner) (.namedTable table (some label)) condition
  | rightJoinAs table label condition =>
    .join (some .right) (.namedTable table (some label)) condition
  | filter field right => .filter (.implied field right)
  | filterBy field op right => .filter (.compare field op right)
  | filterPredicate predicate => .filter (.predicate predicate)
  | having field right => .having (.implied field right)
  | havingBy field op right => .having (.compare field op right)
  | havingPredicate predicate => .having (.predicate predicate)
  | groupBy field => .groupKey field
  | orderBy field direction => .ordering field direction
  | limit count => .limit count
  | offset count => .offset count

end Call

/-- The statement that the calls build from nothing. -/
def Select.construct (calls : List Call) : Select :=
  build (calls.map Call.step)

end SqlSelect
