import SqlSelect.Text.Fragment

/-!
# Identifiers

A name is a path of segments separated by dots. Quoting encloses each segment on
its own, and leaves a segment that is quoted already as it stands.
-/

namespace SqlSelect

/-- How identifiers are set off from the text around them. -/
inductive Quoting where
  | bare
  | marked (quote : String)
deriving DecidableEq, Repr

namespace Identifier

def quoteSegment (quote segment : List Char) : List Char :=
  if Text.hasQuotedFragment segment then segment else quote ++ segment ++ quote

/-- The segments of a name, one more than it has dots. -/
def segments (name : List Char) : List (List Char) :=
  name.splitOn '.'

def quotePath (quote name : List Char) : List Char :=
  ['.'].intercalate ((segments name).map (quoteSegment quote))

end Identifier

namespace Quoting

/-- An identifier as it is written in a statement. -/
def apply : Quoting → String → String
  | bare, name => name
  | marked quote, name => String.ofList (Identifier.quotePath quote.toList name.toList)

@[simp] theorem apply_bare (name : String) : bare.apply name = name :=
  rfl

@[simp] theorem toList_apply_marked (quote name : String) :
    ((marked quote).apply name).toList = Identifier.quotePath quote.toList name.toList :=
  String.toList_ofList

end Quoting

end SqlSelect
