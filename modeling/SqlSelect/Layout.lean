import SqlSelect.Node.Basic
import SqlSelect.Text.Quoted

/-!
# Layout of statement text

How the text of a node is put together from the texts of its parts. Nothing here
binds a value or can fail. A part that is left out has no line of its own, so
sections and entries are joined without gaps.
-/

namespace SqlSelect.Layout

def parenthesized (text : String) : String :=
  "(" ++ text ++ ")"

def aliasSuffix (style : Style) : Option String → String
  | none => ""
  | some label => " AS " ++ style.identifier label

/-! ## Expressions -/

def nullTest (negated : Bool) : String :=
  if negated then "IS NOT NULL" else "IS NULL"

def existsTest (negated : Bool) (query : String) : String :=
  (if negated then "NOT EXISTS " else "EXISTS ") ++ parenthesized query

def comparison (op : Operator) (right : String) : String :=
  op.sql ++ " " ++ right

def valueList (op : Operator) (tokens : List String) : String :=
  comparison op (parenthesized (",".intercalate tokens))

def between (lower upper : String) : String :=
  "BETWEEN " ++ lower ++ " AND " ++ upper

def branch (test result : String) : String :=
  " WHEN " ++ test ++ " THEN " ++ result

def caseWhen (branches : List String) (otherwise : Option String) : String :=
  "(CASE" ++ String.join branches ++
    (match otherwise with
    | some result => " ELSE " ++ result
    | none => "") ++
    " END)"

def call (function : String) (arguments : List String) : String :=
  function ++ parenthesized (", ".intercalate arguments)

def member (key value : String) : String :=
  Text.quoted key ++ ", " ++ value

/-! ## Conditions -/

/-- A condition in parentheses; a computed left-hand side gets parentheses of its own. -/
def condition (isComputed : Bool) (field assertion : String) : String :=
  parenthesized ((if isComputed then parenthesized field else field) ++ " " ++ assertion)

/-- The entries that are written, each with its conjunction. -/
def survivors (conjunctions : List Conjunction) (entries : List String) :
    List (Conjunction × String) :=
  (conjunctions.zip entries).filter fun entry ↦ !entry.2.isEmpty

def entryLine (style : Style) (entry : Conjunction × String) : String :=
  style.indent ++ entry.1.sql ++ " " ++ entry.2

/-- A group has no text if none of its entries has. The first entry written stands without its
conjunction. -/
def group (style : Style) (conjunctions : List Conjunction) (entries : List String) :
    Option String :=
  match survivors conjunctions entries with
  | [] => none
  | first :: rest => some ("\n".intercalate (first.2 :: rest.map (entryLine style)))

def nestedGroup (text : Option String) : String :=
  match text with
  | some text => parenthesized text
  | none => ""

/-! ## Sections of a statement -/

def lines (style : Style) (items : List String) : String :=
  ",\n".intercalate (items.map (style.indent ++ ·))

/-- No columns at all stand for every column. -/
def columns (style : Style) (items : List String) : String :=
  if items.isEmpty then style.indent ++ "*" else lines style items

def orderings (style : Style) (items : List String) : String :=
  lines style items

def groupKeys (items : List String) : String :=
  ",".intercalate items

def ordering (field : String) (direction : OrderDirection) : String :=
  field ++ " " ++ direction.sql

def join (kind : Option JoinKind) (table condition : String) : String :=
  (match kind with
  | some kind => kind.sql ++ " "
  | none => "") ++
    "JOIN " ++ table ++ " ON " ++ condition

/-- A section with its keyword on a line of its own. -/
def titled (keyword body : String) : String :=
  keyword ++ "\n" ++ body

/-- The texts that make up a statement, those that are left out included. -/
structure Sections where
  head : String
  source : String
  joins : List String
  filter : Option String
  groupKeys : List String
  having : Option String
  orderings : List String

def sectionTexts (style : Style) (sections : Sections) (attributes : Attributes) : List String :=
  [sections.head, titled "FROM" (style.indent ++ sections.source)] ++
    sections.joins ++
    (sections.filter.map fun text ↦ titled "WHERE" (style.indent ++ text)).toList ++
    (if sections.groupKeys.isEmpty then []
      else [titled "GROUP BY" (style.indent ++ groupKeys sections.groupKeys)]) ++
    (sections.having.map fun text ↦ titled "HAVING" (style.indent ++ text)).toList ++
    (if sections.orderings.isEmpty then []
      else [titled "ORDER BY" (orderings style sections.orderings)]) ++
    (attributes.limit.map fun count ↦ "LIMIT " ++ toString count).toList ++
    (attributes.offset.map fun count ↦ "OFFSET " ++ toString count).toList

def select (style : Style) (sections : Sections) (attributes : Attributes) : String :=
  "\n".intercalate (sectionTexts style sections attributes)

end SqlSelect.Layout
