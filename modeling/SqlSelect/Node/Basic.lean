import SqlSelect.Keyword.Conjunction
import SqlSelect.Keyword.JoinKind
import SqlSelect.Keyword.Operator
import SqlSelect.Keyword.OrderDirection
import SqlSelect.Options
import SqlSelect.Value

/-!
# The tree of a statement

Everything a SELECT statement is made of is a node, and the type of a node says
what it may stand for: `Node (.one .field)` is one field, `Node (.many .entry)`
a sequence of condition entries, `Node (.maybe .operand)` an operand or none. A
subquery is a statement again, so the kinds refer to each other; as they are one
family, a function on all of them is one recursion and a fact about all of them
one induction.
-/

namespace SqlSelect

/-- What one node stands for. -/
inductive Category where
  /-- What can be selected, compared, grouped by or ordered by. -/
  | field
  /-- An argument: a field written in place or a literal to be bound. -/
  | operand
  /-- What is said of a field, or a value computed. -/
  | expr
  /-- A field with what is said of it, or an expression alone. -/
  | condition
  /-- One line of a condition group. -/
  | entry
  /-- What follows WHEN. -/
  | test
  /-- A WHEN with its THEN. -/
  | branch
  /-- A key of a JSON object with its value. -/
  | member
  | column
  | table
  | join
  | ordering
  | select
deriving DecidableEq, Repr

/-- How many nodes of a category there are. -/
inductive Kind where
  | one (category : Category)
  | many (category : Category)
  | maybe (category : Category)
deriving DecidableEq, Repr

def Kind.category : Kind → Category
  | one category | many category | maybe category => category

/-- The parts of a SELECT that hold no nodes. -/
structure Attributes where
  /-- Text that takes the place of the keyword and the columns. -/
  head : Option String := none
  limit : Option Nat := none
  offset : Option Nat := none
  options : Options := Options.empty
deriving DecidableEq, Repr

inductive Node : Kind → Type where
  /-- A path of identifiers separated by dots. -/
  | name (path : String) : Node (.one .field)
  | verbatim (sql : String) : Node (.one .field)
  | computed (value : Node (.one .expr)) : Node (.one .field)
  | subquery (query : Node (.one .select)) : Node (.one .field)
  | inline (field : Node (.one .field)) : Node (.one .operand)
  | literal (value : Value) : Node (.one .operand)
  | compareValue (op : Operator) (value : Value) : Node (.one .expr)
  | compareList (op : Operator) (values : List Value) : Node (.one .expr)
  | compareField (op : Operator) (field : Node (.one .field)) : Node (.one .expr)
  | compareExpr (op : Operator) (value : Node (.one .expr)) : Node (.one .expr)
  | nullTest (negated : Bool) : Node (.one .expr)
  | existsTest (query : Node (.one .select)) (negated : Bool) : Node (.one .expr)
  | caseWhen (first : Node (.one .branch)) (rest : Node (.many .branch))
      (otherwise : Node (.maybe .operand)) : Node (.one .expr)
  | coalesce (arguments : Node (.many .operand)) : Node (.one .expr)
  | jsonObject (members : Node (.many .member)) : Node (.one .expr)
  | jsonArray (element : Node (.one .field)) : Node (.one .expr)
  | raw (sql : String) : Node (.one .expr)
  | paired (field : Node (.one .field)) (assertion : Node (.one .expr)) : Node (.one .condition)
  | standalone (value : Node (.one .expr)) : Node (.one .condition)
  | single (conjunction : Conjunction) (condition : Node (.one .condition)) : Node (.one .entry)
  | nested (conjunction : Conjunction) (group : Node (.many .entry)) : Node (.one .entry)
  | compareTest (field : Node (.one .field)) (assertion : Node (.one .expr)) : Node (.one .test)
  | conditionTest (condition : Node (.one .condition)) : Node (.one .test)
  | groupTest (group : Node (.many .entry)) : Node (.one .test)
  | branch (test : Node (.one .test)) (result : Node (.one .operand)) : Node (.one .branch)
  | member (key : String) (value : Node (.one .field)) : Node (.one .member)
  | column (field : Node (.one .field)) (label : Option String) : Node (.one .column)
  | namedTable (name : String) (label : Option String) : Node (.one .table)
  /-- A subquery in the place of a table is always given an alias. -/
  | derivedTable (query : Node (.one .select)) (label : String) : Node (.one .table)
  | join (kind : Option JoinKind) (table : Node (.one .table)) (condition : String) :
      Node (.one .join)
  | ordering (field : Node (.one .field)) (direction : OrderDirection) : Node (.one .ordering)
  | select (columns : Node (.many .column)) (source : Node (.maybe .table))
      (joins : Node (.many .join)) (filter : Node (.many .entry))
      (groupKeys : Node (.many .field)) (having : Node (.many .entry))
      (orderings : Node (.many .ordering)) (attributes : Attributes) : Node (.one .select)
  | nil {category : Category} : Node (.many category)
  | cons {category : Category} (first : Node (.one category)) (rest : Node (.many category)) :
      Node (.many category)
  | absent {category : Category} : Node (.maybe category)
  | present {category : Category} (node : Node (.one category)) : Node (.maybe category)

abbrev Field := Node (.one .field)
abbrev Operand := Node (.one .operand)
abbrev Expr := Node (.one .expr)
abbrev Condition := Node (.one .condition)
abbrev CaseTest := Node (.one .test)
abbrev Branch := Node (.one .branch)
abbrev Column := Node (.one .column)
abbrev Table := Node (.one .table)
abbrev Join := Node (.one .join)
abbrev Select := Node (.one .select)

/-- Conditions and nested groups, each with the conjunction that leads to it. -/
abbrev Group := Node (.many .entry)

namespace Node

/-! ## Sequences and optional nodes -/

/-- The nodes in a sequence, the node that is present, or the node itself. -/
def elements : {kind : Kind} → Node kind → List (Node (.one kind.category))
  | .many _, nil => []
  | .many _, cons first rest => first :: elements rest
  | .maybe _, absent => []
  | .maybe _, present node => [node]
  | .one _, node => [node]

variable {category : Category}

def toList (nodes : Node (.many category)) : List (Node (.one category)) :=
  elements nodes

def toOption (node : Node (.maybe category)) : Option (Node (.one category)) :=
  (elements node).head?

def ofList : List (Node (.one category)) → Node (.many category)
  | [] => nil
  | first :: rest => cons first (ofList rest)

/-- The sequence with one more node at its end. -/
def push (nodes : Node (.many category)) (last : Node (.one category)) : Node (.many category) :=
  ofList (nodes.toList ++ [last])

def ofOption : Option (Node (.one category)) → Node (.maybe category)
  | none => absent
  | some node => present node

def length (nodes : Node (.many category)) : Nat :=
  nodes.toList.length

def isEmpty (nodes : Node (.many category)) : Bool :=
  nodes.toList.isEmpty

@[simp] theorem toList_nil : toList (nil : Node (.many category)) = [] :=
  rfl

@[simp] theorem toList_cons (first : Node (.one category)) (rest : Node (.many category)) :
    toList (cons first rest) = first :: toList rest :=
  rfl

@[simp] theorem toList_ofList (nodes : List (Node (.one category))) :
    toList (ofList nodes) = nodes := by
  induction nodes with
  | nil => rfl
  | cons first rest ih => simp [ofList, ih]

@[simp] theorem ofList_toList : ∀ nodes : Node (.many category), ofList (toList nodes) = nodes
  | nil => rfl
  | cons first rest => by rw [toList_cons, ofList, ofList_toList rest]

@[simp] theorem toList_push (nodes : Node (.many category)) (last : Node (.one category)) :
    toList (push nodes last) = toList nodes ++ [last] :=
  toList_ofList _

theorem toList_injective {nodes others : Node (.many category)}
    (h : toList nodes = toList others) : nodes = others := by
  rw [← ofList_toList nodes, h, ofList_toList]

@[simp] theorem toOption_ofOption (node : Option (Node (.one category))) :
    toOption (ofOption node) = node := by
  cases node <;> rfl

@[simp] theorem ofOption_toOption : ∀ node : Node (.maybe category),
    ofOption (toOption node) = node
  | absent => rfl
  | present _ => rfl

/-! ## Shapes that decide how a node is written -/

def isSubquery : Field → Bool
  | subquery _ => true
  | _ => false

def isComputed : Field → Bool
  | computed _ => true
  | _ => false

/-- What joins an entry to the entries before it. -/
def conjunction : Node (.one .entry) → Conjunction
  | single conjunction _ => conjunction
  | nested conjunction _ => conjunction

def conjunctions (group : Group) : List Conjunction :=
  group.toList.map conjunction

end Node

end SqlSelect
