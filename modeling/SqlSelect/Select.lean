import SqlSelect.Group

/-!
# Building SELECT statements

A statement grows by steps, each of which changes one of its clauses. Columns,
joins, conditions, group keys and orderings are added at the end of their
clause; the other steps replace what was set before.
-/

namespace SqlSelect

/-- The clauses of a statement, of which it may lack any while it is built. -/
structure Clauses where
  columns : Node (.many .column) := .nil
  source : Node (.maybe .table) := .absent
  joins : Node (.many .join) := .nil
  filter : Group := .nil
  groupKeys : Node (.many .field) := .nil
  having : Group := .nil
  orderings : Node (.many .ordering) := .nil
  attributes : Attributes := {}

/-- One step of building a statement. -/
inductive Step where
  | options (options : Options)
  | column (field : Field) (label : Option String)
  | head (sql : String)
  | source (table : Table)
  | join (kind : Option JoinKind) (table : Table) (condition : String)
  | filter (criterion : Criterion)
  | having (criterion : Criterion)
  | groupKey (field : Field)
  | ordering (field : Field) (direction : OrderDirection)
  | limit (count : Nat)
  | offset (count : Nat)

namespace Clauses

def setAttributes (clauses : Clauses) (change : Attributes → Attributes) : Clauses :=
  { clauses with attributes := change clauses.attributes }

def step (clauses : Clauses) : Step → Clauses
  | .options options => clauses.setAttributes ({ · with options })
  | .column field label => { clauses with columns := clauses.columns.push (.column field label) }
  | .head sql => clauses.setAttributes ({ · with head := some sql })
  | .source table => { clauses with source := .present table }
  | .join kind table condition =>
    { clauses with joins := clauses.joins.push (.join kind table condition) }
  | .filter criterion => { clauses with filter := clauses.filter.add .and criterion }
  | .having criterion => { clauses with having := clauses.having.add .and criterion }
  | .groupKey field => { clauses with groupKeys := clauses.groupKeys.push field }
  | .ordering field direction =>
    { clauses with orderings := clauses.orderings.push (.ordering field direction) }
  | .limit count => clauses.setAttributes ({ · with limit := some count })
  | .offset count => clauses.setAttributes ({ · with offset := some count })

end Clauses

namespace Select

def ofClauses (clauses : Clauses) : Select :=
  .select clauses.columns clauses.source clauses.joins clauses.filter clauses.groupKeys
    clauses.having clauses.orderings clauses.attributes

def clauses : Select → Clauses
  | .select columns source joins filter groupKeys having orderings attributes =>
    { columns, source, joins, filter, groupKeys, having, orderings, attributes }

@[simp] theorem clauses_ofClauses (c : Clauses) : clauses (ofClauses c) = c :=
  rfl

@[simp] theorem ofClauses_clauses : ∀ query : Select, ofClauses (clauses query) = query
  | .select .. => rfl

def empty : Select :=
  ofClauses {}

def step (query : Select) (step : Step) : Select :=
  ofClauses (query.clauses.step step)

/-- The statement that the steps build from nothing. -/
def build (steps : List Step) : Select :=
  steps.foldl Select.step empty

/-- The options kept with a statement. -/
def options (query : Select) : Options :=
  query.clauses.attributes.options

/-! ## Text -/

/-- The style of a statement, where options given at the call win over those kept with it. -/
def style (query : Select) (options : Options) : Style :=
  (query.options.merge options).resolve

/-- Renders into shared parameters, which keep their own way of marking places. -/
def renderWith (query : Select) (options : Options) : Rendering String :=
  Node.render (query.style options) query

/-- The text with its arguments, which start with none bound. -/
def toSqlWith (query : Select) (options : Options) : Except BuildError (Prepared String) :=
  let style := (query.options.merge options).resolve
  prepare style.placeholder (Node.render style query)

/-- A call without shared parameters is one with parameters in which nothing is bound. -/
theorem toSqlWith_eq_prepare (query : Select) (options : Options) :
    query.toSqlWith options =
      prepare (query.style options).placeholder (query.renderWith options) :=
  rfl

def toSql (query : Select) : Except BuildError (Prepared String) :=
  query.toSqlWith Options.empty

end Select

end SqlSelect
