import SqlSelect.Render

/-!
# Pieces of a statement

A piece is whatever has a text of its own outside a statement: a node, or one of
the lists whose layout belongs to the statement around them.
-/

namespace SqlSelect

inductive Piece where
  | node {category : Category} (node : Node (.one category))
  | columns (columns : Node (.many .column))
  | groupKeys (fields : Node (.many .field))
  | orderings (orderings : Node (.many .ordering))

namespace Piece

def render (style : Style) : Piece → Rendering String
  | node one => Node.render style one
  | columns items => Layout.columns style <$> Node.render style items
  | groupKeys items => Layout.groupKeys <$> Node.render style items
  | orderings items => Layout.orderings style <$> Node.render style items

end Piece

end SqlSelect
