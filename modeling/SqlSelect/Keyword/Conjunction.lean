import SqlSelect.Text.Vocabulary

/-!
# Conjunctions of conditions
-/

namespace SqlSelect

inductive Conjunction where
  | and
  | or
deriving DecidableEq, Repr

namespace Conjunction

def sql : Conjunction → String
  | and => "AND"
  | or => "OR"

def all : List Conjunction :=
  [and, or]

theorem mem_all (conjunction : Conjunction) : conjunction ∈ all := by
  cases conjunction <;> decide

def spellings : List (String × Conjunction) :=
  [("and", and), ("or", or)]

def parse (text : String) : Except Text.UnknownWord Conjunction :=
  Text.Vocabulary.conjunction.require text (Text.lookup? spellings text)

end Conjunction

end SqlSelect
