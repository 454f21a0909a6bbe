/-!
# Closed vocabularies

A vocabulary lists the values that can be written as one word, each with its
spellings. Spellings are listed in lower case, and a word is looked up with the
case of ASCII letters set aside; a letter outside ASCII stands only for itself.
-/

namespace SqlSelect.Text

/-- What a word was expected to name. -/
inductive Vocabulary where
  | operator
  | conjunction
  | joinKind
  | orderDirection
  | flavor
  | placeholder
deriving DecidableEq, Repr

/-- A word outside the vocabulary it was looked up in, as it was given. -/
structure UnknownWord where
  vocabulary : Vocabulary
  word : String
deriving DecidableEq, Repr

namespace Vocabulary

/-- How messages call the values of the vocabulary. -/
def noun : Vocabulary → String
  | operator => "operator"
  | conjunction => "conjunction"
  | joinKind => "join direction"
  | orderDirection => "order direction"
  | flavor => "driver"
  | placeholder => "placeholder"

end Vocabulary

def UnknownWord.message (unknown : UnknownWord) : String :=
  unknown.vocabulary.noun ++ " \"" ++ unknown.word ++ "\" is not supported"

/-- The value of which `word` is a spelling, up to the case of ASCII letters. -/
def lookup? {α : Type} (spellings : List (String × α)) (word : String) : Option α :=
  spellings.lookup word.toLower

/-- Words that differ only in the case of ASCII letters name the same value. -/
theorem lookup?_congr {α : Type} {spellings : List (String × α)} {word other : String}
    (h : word.toLower = other.toLower) : lookup? spellings word = lookup? spellings other := by
  simp only [lookup?, h]

/-- What a text was found to name; if nothing, the text is reported as it was given. -/
def Vocabulary.require {α : Type} (vocabulary : Vocabulary) (given : String) :
    Option α → Except UnknownWord α
  | some value => .ok value
  | none => .error ⟨vocabulary, given⟩

@[simp] theorem Vocabulary.require_eq_ok_iff {α : Type} {vocabulary : Vocabulary} {given : String}
    {found : Option α} {value : α} :
    vocabulary.require given found = .ok value ↔ found = some value := by
  cases found <;> simp [require]

@[simp] theorem Vocabulary.require_eq_error_iff {α : Type} {vocabulary : Vocabulary}
    {given : String} {found : Option α} {unknown : UnknownWord} :
    vocabulary.require given found = .error unknown ↔
      unknown = ⟨vocabulary, given⟩ ∧ found = none := by
  cases found <;> simp [require, eq_comm]

end SqlSelect.Text
