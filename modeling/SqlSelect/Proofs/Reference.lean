import SqlSelect.Group
import SqlSelect.Piece
import SqlSelect.Proofs.Document

/-!
# The reference renderer

The reference reads a tree without any parameters at hand. It gives a document or
the reason why there is none, and puts every part of the document down where it
stands in the text.
-/

namespace SqlSelect

open Document

namespace Reference

def enclosed (document : Document) : Document :=
  fixed "(" ++ document ++ fixed ")"

def labelled (style : Style) (document : Document) : Option String → Document
  | none => document
  | some label => document ++ fixed " AS " ++ fixed (style.identifier label)

/-- Each entry that is not blank stands on a line of its own, led by its conjunction. -/
def continuation (style : Style) (entries : List (Conjunction × Document)) : Document :=
  entries.flatMap fun entry ↦ fixed ("\n" ++ style.indent ++ entry.1.sql ++ " ") ++ entry.2

/-- The first entry that is not blank stands without its conjunction. -/
def group (style : Style) (entries : List (Conjunction × Document)) : Option Document :=
  match entries.filter fun entry ↦ !isBlank entry.2 with
  | [] => none
  | first :: rest => some (first.2 ++ continuation style rest)

def indented (style : Style) (document : Document) : Document :=
  fixed style.indent ++ document

def lines (style : Style) (items : List Document) : Document :=
  separated ",\n" (items.map (indented style))

def columns (style : Style) : List Document → Document
  | [] => fixed (style.indent ++ "*")
  | items => lines style items

/-- The columns count only if no head is given. -/
def head (style : Style) (given : Option String)
    (columns : Except BuildError (List Document)) : Except BuildError Document :=
  match given with
  | some text => pure (fixed text)
  | none => do
    let columns ← columns
    return fixed "SELECT\n" ++ Reference.columns style columns

def joined : Option JoinKind → Document
  | none => fixed "JOIN "
  | some kind => fixed (kind.sql ++ " JOIN ")

/-- A clause that may be left out, after the clauses before it. -/
def clause (keyword : String) : Option Document → Document
  | none => []
  | some body => fixed ("\n" ++ keyword ++ "\n") ++ body

/-- The body of a clause that lists items, if there are any. -/
def listed (layout : List Document → Document) : List Document → Option Document
  | [] => none
  | items => some (layout items)

def count (keyword : String) : Option Nat → Document
  | none => []
  | some number => fixed ("\n" ++ keyword ++ toString number)

/-- The documents of the parts of a statement. -/
structure Parts where
  head : Document
  source : Document
  joins : List Document
  filter : Option Document
  groupKeys : List Document
  having : Option Document
  orderings : List Document

def statement (style : Style) (parts : Parts) (attributes : Attributes) : Document :=
  parts.head ++
    fixed "\nFROM\n" ++ indented style parts.source ++
    parts.joins.flatMap (fixed "\n" ++ ·) ++
    clause "WHERE" (parts.filter.map (indented style)) ++
    clause "GROUP BY" (listed (fun keys ↦ indented style (separated "," keys)) parts.groupKeys) ++
    clause "HAVING" (parts.having.map (indented style)) ++
    clause "ORDER BY" (listed (lines style) parts.orderings) ++
    count "LIMIT " attributes.limit ++
    count "OFFSET " attributes.offset

/-- A list of literals that an operator takes. -/
def comparedList (op : Operator) (values : List Value) : Except BuildError Document :=
  match op, values with
  | .isIn, [] | .notIn, [] => throw (.emptyValueList op)
  | .isIn, values | .notIn, values =>
    pure (fixed (op.sql ++ " ") ++ enclosed (separated "," (values.map literal)))
  | .between, [lower, upper] =>
    pure (fixed "BETWEEN " ++ literal lower ++ fixed " AND " ++ literal upper)
  | .between, values => throw (.betweenArity values.length)
  | op, _ => throw (.listValueNotSupported op)

end Reference

namespace Node

open Reference

/-- The document of each node. The columns under a head that is given are no part of it. -/
def document (style : Style) :
    {kind : Kind} → Node kind → Except BuildError (kind.Rendered Document)
  | _, name path => pure (fixed (style.identifier path))
  | _, verbatim sql => pure (fixed sql)
  | _, computed value => (document style value : Except BuildError Document)
  | _, subquery query => do
    let query ← document style query
    return enclosed query
  | _, inline field => (document style field : Except BuildError Document)
  | _, literal value => pure (Document.literal value)
  | _, compareValue op value =>
    if op.takesList then throw (.listValueRequired op)
    else pure (fixed (op.sql ++ " ") ++ Document.literal value)
  | _, compareList op values => comparedList op values
  | _, compareField op field =>
    if fieldAllowed op field then do
      let field ← document style field
      return fixed (op.sql ++ " ") ++ field
    else throw (.listValueRequired op)
  | _, compareExpr op value =>
    if op.takesList then throw (.listValueRequired op)
    else do
      let value ← document style value
      return fixed (op.sql ++ " ") ++ value
  | _, nullTest negated => pure (fixed (if negated then "IS NOT NULL" else "IS NULL"))
  | _, existsTest query negated => do
    let query ← document style query
    return fixed (if negated then "NOT EXISTS " else "EXISTS ") ++ enclosed query
  | _, caseWhen first rest otherwise => do
    let first ← document style first
    let rest ← document style rest
    let otherwise ← document style otherwise
    return fixed "(CASE" ++ first ++ rest.flatten ++
      otherwise.elim [] (fixed " ELSE " ++ ·) ++ fixed " END)"
  | _, coalesce arguments =>
    if arguments.isEmpty then throw .emptyCoalesce
    else do
      let arguments ← document style arguments
      return fixed "COALESCE" ++ enclosed (separated ", " arguments)
  | _, jsonObject members => do
    let members ← document style members
    return fixed style.jsonObjectFunction ++ enclosed (separated ", " members)
  | _, jsonArray element => do
    let element ← document style element
    return fixed style.jsonArrayFunction ++ enclosed element
  | _, raw sql => pure (fixed sql)
  | _, paired field assertion => do
    let left ← document style field
    let right ← document style assertion
    return enclosed ((if field.isComputed then enclosed left else left) ++ fixed " " ++ right)
  | _, standalone value => (document style value : Except BuildError Document)
  | _, single _ condition => (document style condition : Except BuildError Document)
  | _, nested _ entries => do
    let documents ← document style entries
    return (group style (entries.conjunctions.zip documents)).elim [] enclosed
  | _, compareTest field assertion => do
    let left ← document style field
    let right ← document style assertion
    return left ++ fixed " " ++ right
  | _, conditionTest condition => (document style condition : Except BuildError Document)
  | _, groupTest entries => do
    let documents ← document style entries
    match group style (entries.conjunctions.zip documents) with
    | some document => return document
    | none => throw .emptyCaseCondition
  | _, branch test result => do
    let test ← document style test
    let result ← document style result
    return fixed " WHEN " ++ test ++ fixed " THEN " ++ result
  | _, member key value => do
    let value ← document style value
    return fixed (Text.quoted key) ++ fixed ", " ++ value
  | _, column field label => do
    let field ← document style field
    return labelled style field label
  | _, namedTable table label => pure (labelled style (fixed (style.identifier table)) label)
  | _, derivedTable query label => do
    let query ← document style query
    return labelled style (enclosed query) (some label)
  | _, join kind table condition => do
    let table ← document style table
    return joined kind ++ table ++ fixed (" ON " ++ condition)
  | _, ordering field direction => do
    let field ← document style field
    return field ++ fixed (" " ++ direction.sql)
  | _, select _ absent _ _ _ _ _ _ => throw .tableNotSet
  | _, select columns (present source) joins filter groupKeys having orderings attributes => do
    let head ← Reference.head style attributes.head (document style columns)
    let source ← document style source
    let joins ← document style joins
    let filterDocuments ← document style filter
    let groupKeys ← document style groupKeys
    let havingDocuments ← document style having
    let orderings ← document style orderings
    return statement style
      { head, source, joins, groupKeys, orderings
        filter := group style (filter.conjunctions.zip filterDocuments)
        having := group style (having.conjunctions.zip havingDocuments) }
      attributes
  | _, nil => pure []
  | _, cons first rest => do
    let first ← document style first
    let rest ← document style rest
    return first :: rest
  | _, absent => pure none
  | _, present node => do
    let node ← document style node
    return some node

end Node

/-- Whatever result there is has the property. -/
def Ensures {ε α : Type} (property : α → Prop) (computation : Except ε α) : Prop :=
  ∀ result, computation = .ok result → property result

namespace Ensures

variable {ε α β : Type} {property : β → Prop}

theorem pure {result : β} (h : property result) :
    Ensures property (Pure.pure result : Except ε β) := by
  rintro _ ⟨⟩
  exact h

theorem throw (error : ε) : Ensures property (MonadExcept.throw error : Except ε β) :=
  nofun

theorem bind {first : Except ε α} {next : α → Except ε β} {earlier : α → Prop}
    (hfirst : Ensures earlier first)
    (hnext : ∀ value, earlier value → Ensures property (next value)) :
    Ensures property (first >>= next) := by
  intro result hresult
  cases first with
  | error error => cases hresult
  | ok value => exact hnext value (hfirst value rfl) result hresult

/-- The first result does not matter to the property. -/
theorem of_next {first : Except ε α} {next : α → Except ε β}
    (hnext : ∀ value, Ensures property (next value)) : Ensures property (first >>= next) :=
  bind (fun _ _ ↦ trivial : Ensures (fun _ ↦ True) first) fun value _ ↦ hnext value

theorem mono {weaker : β → Prop} {computation : Except ε β} (h : Ensures property computation)
    (hweaker : ∀ result, property result → weaker result) : Ensures weaker computation :=
  fun result hresult ↦ hweaker result (h result hresult)

/-- What is done with a result may differ where there is no result of the kind. -/
theorem bind_congr {first : Except ε α} {next other : α → Except ε β} {earlier : α → Prop}
    (hfirst : Ensures earlier first) (hnext : ∀ value, earlier value → next value = other value) :
    first >>= next = first >>= other := by
  cases first with
  | error error => rfl
  | ok value => exact hnext value (hfirst value rfl)

theorem and {other : β → Prop} {computation : Except ε β} (h : Ensures property computation)
    (hother : Ensures other computation) :
    Ensures (fun result ↦ property result ∧ other result) computation :=
  fun result hresult ↦ ⟨h result hresult, hother result hresult⟩

theorem map {first : Except ε α} {change : α → β} {earlier : α → Prop}
    (hfirst : Ensures earlier first) (hchange : ∀ value, earlier value → property (change value)) :
    Ensures property (change <$> first) := by
  intro result hresult
  cases first with
  | error error => cases hresult
  | ok value =>
    cases hresult
    exact hchange value (hfirst value rfl)

end Ensures

theorem bind_eq_ok {ε α β : Type} {first : Except ε α} {next : α → Except ε β} {result : β}
    (h : first >>= next = .ok result) : ∃ value, first = .ok value ∧ next value = .ok result := by
  cases first with
  | error error => cases h
  | ok value => exact ⟨value, rfl, h⟩

theorem Node.document_present (style : Style) {category : Category} (node : Node (.one category)) :
    document style (present node) = some <$> document style node := by
  rw [document]
  cases document style node <;> rfl

theorem map_some_injective {ε α : Type} {first second : Except ε α}
    (h : some <$> first = some <$> second) : first = second := by
  cases first <;> cases second <;> cases h <;> rfl

/-- A sequence of nodes that has documents has one for each node. -/
theorem Node.length_document (style : Style) {category : Category} :
    ∀ nodes : Node (.many category),
      Ensures (fun documents ↦ documents.length = nodes.toList.length) (document style nodes)
  | nil => .pure rfl
  | cons first rest => by
    rw [document]
    refine .of_next fun first ↦ (length_document style rest).bind fun documents hlength ↦ ?_
    exact .pure (by simp [hlength])

/-- So each entry of a group is paired with its own conjunction. -/
theorem Node.map_snd_zip_conjunctions (style : Style) (entries : Group) :
    Ensures (fun documents ↦ (entries.conjunctions.zip documents).map Prod.snd = documents)
      (document style entries) := by
  intro documents h
  have hlength : documents.length = entries.conjunctions.length := by
    rw [length_document style entries documents h, conjunctions, List.length_map]
  exact List.map_snd_zip (Nat.le_of_eq hlength)

namespace Piece

def document (style : Style) : Piece → Except BuildError Document
  | node one => Node.document style one
  | columns items => Reference.columns style <$> Node.document style items
  | groupKeys items => separated "," <$> Node.document style items
  | orderings items => Reference.lines style <$> Node.document style items

end Piece

def Group.document (style : Style) (group : Group) : Except BuildError (Option Document) :=
  (fun documents ↦ Reference.group style (group.conjunctions.zip documents)) <$>
    Node.document style group

/-- Whatever has a text of its own: a piece, or a condition group, whose text is optional. -/
inductive Part where
  | piece (piece : Piece)
  | group (group : Group)

namespace Part

def render (style : Style) : Part → Rendering (Option String)
  | piece one => some <$> one.render style
  | group entries => Group.render style entries

def document (style : Style) : Part → Except BuildError (Option Document)
  | piece one => some <$> one.document style
  | group entries => Group.document style entries

end Part

end SqlSelect
