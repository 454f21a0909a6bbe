import SqlSelect.Piece
import SqlSelect.Select

/-!
# Sessions on shared parameters

Several texts can be rendered into the same parameters, one after the other. The
numbers of the placeholders go on counting from text to text.
-/

namespace SqlSelect.Session

inductive Step where
  | bind (value : Value)
  /-- The options kept with the statement take part. -/
  | statement (query : Select) (options : Options)
  | piece (piece : Piece) (style : Style)

def Step.perform : Step → Rendering String
  | bind value => bindValue value
  | statement query options => query.renderWith options
  | piece rendered style => rendered.render style

end SqlSelect.Session
