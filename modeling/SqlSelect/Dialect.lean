import SqlSelect.Text.Vocabulary

/-!
# Dialects

A flavor fixes the default identifier quote and the names of the functions that
build JSON. How parameters are marked is chosen apart from it.
-/

namespace SqlSelect

/-- The database a statement is written for. -/
inductive Flavor where
  | mysql
  | postgresql
  | sqlite
deriving DecidableEq, Repr

namespace Flavor

instance : Inhabited Flavor := ⟨mysql⟩

def name : Flavor → String
  | mysql => "MySQL"
  | postgresql => "PostgreSQL"
  | sqlite => "SQLite"

def defaultQuote : Flavor → String
  | postgresql => "\""
  | mysql | sqlite => "`"

def jsonObjectFunction : Flavor → String
  | mysql => "JSON_OBJECT"
  | postgresql => "json_build_object"
  | sqlite => "json_object"

def jsonArrayFunction : Flavor → String
  | mysql => "JSON_ARRAYAGG"
  | postgresql => "json_agg"
  | sqlite => "json_group_array"

/-- One flavor has a short form besides its name. -/
def spellings : List (String × Flavor) :=
  [("mysql", mysql), ("postgresql", postgresql), ("postgres", postgresql), ("sqlite", sqlite)]

def parse (text : String) : Except Text.UnknownWord Flavor :=
  Text.Vocabulary.flavor.require text (Text.lookup? spellings text)

end Flavor

/-- How the place of a bound value is marked. -/
inductive Placeholder where
  | questionMark
  | dollarNumbered
deriving DecidableEq, Repr

namespace Placeholder

instance : Inhabited Placeholder := ⟨questionMark⟩

def symbol : Placeholder → String
  | questionMark => "?"
  | dollarNumbered => "$"

/-- The mark of the parameter at a position, counted from 1. -/
def token : Placeholder → Nat → String
  | questionMark, _ => "?"
  | dollarNumbered, position => "$" ++ toString position

def spellings : List (String × Placeholder) :=
  [("?", questionMark), ("$", dollarNumbered)]

/-- Reads the symbol of a style of marks, which has no letters. -/
def parse (text : String) : Except Text.UnknownWord Placeholder :=
  Text.Vocabulary.placeholder.require text (spellings.lookup text)

end Placeholder

end SqlSelect
