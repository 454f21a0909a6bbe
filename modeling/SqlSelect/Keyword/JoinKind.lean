import SqlSelect.Text.Vocabulary

/-!
# Kinds of join
-/

namespace SqlSelect

inductive JoinKind where
  | left
  | right
  | inner
  | outer
deriving DecidableEq, Repr

namespace JoinKind

def sql : JoinKind → String
  | left => "LEFT"
  | right => "RIGHT"
  | inner => "INNER"
  | outer => "OUTER"

def spellings : List (String × JoinKind) :=
  [("left", left), ("right", right), ("inner", inner), ("outer", outer)]

def parse (text : String) : Except Text.UnknownWord JoinKind :=
  Text.Vocabulary.joinKind.require text (Text.lookup? spellings text)

end JoinKind

end SqlSelect
