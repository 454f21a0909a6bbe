import SqlSelect.BuildError
import SqlSelect.Layout
import SqlSelect.Params

/-!
# Rendering

Rendering visits a tree once, from left to right, binds each literal where it is
met and puts the placeholders into the text. A rendering that fails keeps the
values bound before the failure, since they may stand in parameters that are
shared with other statements.

A subquery is rendered in the style of the statement around it, and its own
options are not read. The style of the placeholders is that of the parameters.
-/

namespace SqlSelect

/-- What a node of a kind yields: a text for each node it stands for. -/
abbrev Kind.Rendered (text : Type) : Kind → Type
  | .one _ => text
  | .many _ => List text
  | .maybe _ => Option text

/-- A computation that binds parameters as it goes and may fail. -/
abbrev Rendering := EStateM BuildError Params

def bindValue (value : Value) : Rendering String :=
  modifyGet fun params ↦ params.bind value

def bindValues : List Value → Rendering (List String)
  | [] => pure []
  | value :: rest => do
    let token ← bindValue value
    return token :: (← bindValues rest)

/-- A text with the values that its placeholders stand for. The text of a condition group is
optional. -/
structure Prepared (text : Type) where
  text : text
  arguments : Array Value
deriving DecidableEq, Repr

/-- The result of a computation that starts with no parameters bound. -/
def prepare {text : Type} (placeholder : Placeholder) (rendering : Rendering text) :
    Except BuildError (Prepared text) :=
  match rendering.run (Params.empty placeholder) with
  | .ok text params => .ok ⟨text, params.values⟩
  | .error error _ => .error error

namespace Node

/-- An operator that asks for a list takes a field only if it is a subquery, and BETWEEN not even
then. -/
def fieldAllowed (op : Operator) (field : Field) : Bool :=
  op != .between && (!op.takesList || field.isSubquery)

/-- A comparison with a list of literals. -/
def renderList (op : Operator) (values : List Value) : Rendering String :=
  match op with
  | .isIn | .notIn =>
    if values.isEmpty then throw (.emptyValueList op)
    else do
      let tokens ← bindValues values
      return Layout.valueList op tokens
  | .between =>
    match values with
    | [lower, upper] => do
      let lower ← bindValue lower
      let upper ← bindValue upper
      return Layout.between lower upper
    | _ => throw (.betweenArity values.length)
  | _ => throw (.listValueNotSupported op)

/-- The head of a statement. A head that is given takes the place of the columns, which are then
not visited. -/
def renderHead (style : Style) (head : Option String) (columns : Rendering (List String)) :
    Rendering String :=
  match head with
  | some text => pure text
  | none => do
    let columns ← columns
    return Layout.titled "SELECT" (Layout.columns style columns)

/-- The text of each node, with its literals bound in the order in which they are met. -/
def render (style : Style) : {kind : Kind} → Node kind → Rendering (kind.Rendered String)
  | _, name path => pure (style.identifier path)
  | _, verbatim sql => pure sql
  | _, computed value => (render style value : Rendering String)
  | _, subquery query => do
    let query ← render style query
    return Layout.parenthesized query
  | _, inline field => (render style field : Rendering String)
  | _, literal value => bindValue value
  | _, compareValue op value =>
    if op.takesList then throw (.listValueRequired op)
    else do
      let token ← bindValue value
      return Layout.comparison op token
  | _, compareList op values => renderList op values
  | _, compareField op field =>
    if fieldAllowed op field then do
      let field ← render style field
      return Layout.comparison op field
    else throw (.listValueRequired op)
  | _, compareExpr op value =>
    if op.takesList then throw (.listValueRequired op)
    else do
      let value ← render style value
      return Layout.comparison op value
  | _, nullTest negated => pure (Layout.nullTest negated)
  | _, existsTest query negated => do
    let query ← render style query
    return Layout.existsTest negated query
  | _, caseWhen first rest otherwise => do
    let first ← render style first
    let rest ← render style rest
    let otherwise ← render style otherwise
    return Layout.caseWhen (first :: rest) otherwise
  | _, coalesce arguments =>
    if arguments.isEmpty then throw .emptyCoalesce
    else do
      let arguments ← render style arguments
      return Layout.call "COALESCE" arguments
  | _, jsonObject members => do
    let members ← render style members
    return Layout.call style.jsonObjectFunction members
  | _, jsonArray element => do
    let element ← render style element
    return Layout.call style.jsonArrayFunction [element]
  | _, raw sql => pure sql
  | _, paired field assertion => do
    let fieldText ← render style field
    let assertion ← render style assertion
    return Layout.condition field.isComputed fieldText assertion
  | _, standalone value => (render style value : Rendering String)
  | _, single _ condition => (render style condition : Rendering String)
  | _, nested _ group => do
    let entries ← render style group
    return Layout.nestedGroup (Layout.group style group.conjunctions entries)
  | _, compareTest field assertion => do
    let field ← render style field
    let assertion ← render style assertion
    return field ++ " " ++ assertion
  | _, conditionTest condition => (render style condition : Rendering String)
  | _, groupTest group => do
    let entries ← render style group
    match Layout.group style group.conjunctions entries with
    | some text => return text
    | none => throw .emptyCaseCondition
  | _, branch test result => do
    let test ← render style test
    let result ← render style result
    return Layout.branch test result
  | _, member key value => do
    let value ← render style value
    return Layout.member key value
  | _, column field label => do
    let field ← render style field
    return field ++ Layout.aliasSuffix style label
  | _, namedTable table label => pure (style.identifier table ++ Layout.aliasSuffix style label)
  | _, derivedTable query label => do
    let query ← render style query
    return Layout.parenthesized query ++ Layout.aliasSuffix style (some label)
  | _, join kind table condition => do
    let table ← render style table
    return Layout.join kind table condition
  | _, ordering field direction => do
    let field ← render style field
    return Layout.ordering field direction
  | _, select _ absent _ _ _ _ _ _ => throw .tableNotSet
  | _, select columns (present source) joins filter groupKeys having orderings attributes => do
    let head ← renderHead style attributes.head (render style columns)
    let source ← render style source
    let joins ← render style joins
    let filterTexts ← render style filter
    let groupKeys ← render style groupKeys
    let havingTexts ← render style having
    let orderings ← render style orderings
    return Layout.select style
      { head, source, joins, groupKeys, orderings
        filter := Layout.group style filter.conjunctions filterTexts
        having := Layout.group style having.conjunctions havingTexts }
      attributes
  | _, nil => pure []
  | _, cons first rest => do
    let first ← render style first
    let rest ← render style rest
    return first :: rest
  | _, absent => pure none
  | _, present node => do
    let node ← render style node
    return some node

end Node

end SqlSelect
