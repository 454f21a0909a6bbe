import SqlSelect.Text.Vocabulary

/-!
# Directions of an ordering
-/

namespace SqlSelect

inductive OrderDirection where
  | asc
  | desc
deriving DecidableEq, Repr

namespace OrderDirection

def sql : OrderDirection → String
  | asc => "ASC"
  | desc => "DESC"

def spellings : List (String × OrderDirection) :=
  [("asc", asc), ("desc", desc)]

def parse (text : String) : Except Text.UnknownWord OrderDirection :=
  Text.Vocabulary.orderDirection.require text (Text.lookup? spellings text)

end OrderDirection

end SqlSelect
