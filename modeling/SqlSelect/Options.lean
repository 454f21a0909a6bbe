import SqlSelect.Dialect
import SqlSelect.Identifier

/-!
# Options and style

Options say only what somebody set. Merging keeps the later setting of each
field, and resolving fills in what nobody set: the quote and the functions that
build JSON follow the flavor. The result is the style that rendering reads.
-/

namespace SqlSelect

structure Options where
  placeholder : Option Placeholder := none
  indent : Option String := none
  /-- Absent means the default quote of the flavor. -/
  quoting : Option Quoting := none
  flavor : Option Flavor := none
deriving DecidableEq, Repr

/-- What rendering needs to know, with every choice made. -/
structure Style where
  indent : String
  placeholder : Placeholder
  quoting : Quoting
  flavor : Flavor
  jsonObjectFunction : String
  jsonArrayFunction : String
deriving DecidableEq, Repr

namespace Options

def empty : Options := {}

instance : Inhabited Options := ⟨empty⟩

/-- One choice. Choosing a quote and choosing none are settings of one field. -/
inductive Setting where
  | placeholder (placeholder : Placeholder)
  | indent (indent : String)
  | quote (quote : String)
  | noQuote
  | flavor (flavor : Flavor)
deriving DecidableEq, Repr

def set (options : Options) : Setting → Options
  | .placeholder placeholder => { options with placeholder := some placeholder }
  | .indent indent => { options with indent := some indent }
  | .quote quote => { options with quoting := some (.marked quote) }
  | .noQuote => { options with quoting := some .bare }
  | .flavor flavor => { options with flavor := some flavor }

/-- The options after settings made one after the other. -/
def ofSettings (settings : List Setting) : Options :=
  settings.foldl set empty

/-- Fieldwise, what `later` leaves open is taken from `base`. -/
def merge (base later : Options) : Options where
  placeholder := later.placeholder.or base.placeholder
  indent := later.indent.or base.indent
  quoting := later.quoting.or base.quoting
  flavor := later.flavor.or base.flavor

/-- Two spaces. -/
def defaultIndent : String := "  "

def resolve (options : Options) : Style :=
  let flavor := options.flavor.getD default
  { indent := options.indent.getD defaultIndent
    placeholder := options.placeholder.getD default
    quoting := options.quoting.getD (.marked flavor.defaultQuote)
    flavor := flavor
    jsonObjectFunction := flavor.jsonObjectFunction
    jsonArrayFunction := flavor.jsonArrayFunction }

end Options

namespace Style

instance : Inhabited Style := ⟨Options.empty.resolve⟩

def identifier (style : Style) (name : String) : String :=
  style.quoting.apply name

end Style

end SqlSelect
