import SqlSelect.Select
import SqlSelect.Proofs.Binding

/-!
# What is never read

A statement inside another is rendered in the style of the one around it, so the
options kept with it are never read, and neither are the columns of a statement whose
head is given. The options kept with the outermost statement are read once, where
those given at the call are merged into them.
-/

namespace SqlSelect

namespace Node

/-- The node without the options kept in it and without columns under a head that is given. -/
def stripped : {kind : Kind} → Node kind → Node kind
  | _, name path => name path
  | _, verbatim sql => verbatim sql
  | _, computed value => computed (stripped value)
  | _, subquery query => subquery (stripped query)
  | _, inline field => inline (stripped field)
  | _, literal value => literal value
  | _, compareValue op value => compareValue op value
  | _, compareList op values => compareList op values
  | _, compareField op field => compareField op (stripped field)
  | _, compareExpr op value => compareExpr op (stripped value)
  | _, nullTest negated => nullTest negated
  | _, existsTest query negated => existsTest (stripped query) negated
  | _, caseWhen first rest otherwise =>
    caseWhen (stripped first) (stripped rest) (stripped otherwise)
  | _, coalesce arguments => coalesce (stripped arguments)
  | _, jsonObject members => jsonObject (stripped members)
  | _, jsonArray element => jsonArray (stripped element)
  | _, raw sql => raw sql
  | _, paired field assertion => paired (stripped field) (stripped assertion)
  | _, standalone value => standalone (stripped value)
  | _, single conjunction condition => single conjunction (stripped condition)
  | _, nested conjunction group => nested conjunction (stripped group)
  | _, compareTest field assertion => compareTest (stripped field) (stripped assertion)
  | _, conditionTest condition => conditionTest (stripped condition)
  | _, groupTest group => groupTest (stripped group)
  | _, branch test result => branch (stripped test) (stripped result)
  | _, member key value => member key (stripped value)
  | _, column field label => column (stripped field) label
  | _, namedTable table label => namedTable table label
  | _, derivedTable query label => derivedTable (stripped query) label
  | _, join kind table condition => join kind (stripped table) condition
  | _, ordering field direction => ordering (stripped field) direction
  | _, select columns source joins filter groupKeys having orderings attributes =>
    select (if attributes.head.isSome then nil else stripped columns) (stripped source)
      (stripped joins) (stripped filter) (stripped groupKeys) (stripped having)
      (stripped orderings) { attributes with options := Options.empty }
  | _, nil => nil
  | _, cons first rest => cons (stripped first) (stripped rest)
  | _, absent => absent
  | _, present node => present (stripped node)

/-! ## What decides how a node is written is still there -/

theorem isEmpty_stripped {category : Category} : ∀ nodes : Node (.many category),
    (stripped nodes).isEmpty = nodes.isEmpty
  | nil => rfl
  | cons _ _ => rfl

theorem isComputed_stripped (field : Field) : (stripped field).isComputed = field.isComputed := by
  cases field <;> rfl

theorem fieldAllowed_stripped (op : Operator) (field : Field) :
    fieldAllowed op (stripped field) = fieldAllowed op field := by
  cases field <;> rfl

theorem conjunctions_stripped : ∀ entries : Group,
    (stripped entries).conjunctions = entries.conjunctions
  | nil => rfl
  | cons (single conjunction _) rest | cons (nested conjunction _) rest =>
    congrArg (conjunction :: ·) (conjunctions_stripped rest)

theorem renderHead_stripped (style : Style) (given : Option String)
    {columns : Node (.many .column)}
    (hcolumns : render style (stripped columns) = render style columns) :
    renderHead style given (render style (if given.isSome then nil else stripped columns)) =
      renderHead style given (render style columns) := by
  cases given with
  | some text => rfl
  | none => exact congrArg (renderHead style none) hcolumns

/-- A rendering reads nothing of what is stripped off. -/
theorem render_stripped (style : Style) {kind : Kind} (node : Node kind) :
    render style (stripped node) = render style node := by
  induction node with
  | name _ | verbatim _ | literal _ | compareValue _ _ | compareList _ _ | nullTest _ | raw _
    | namedTable _ _ | nil | absent => rfl
  | computed _ ih | inline _ ih | standalone _ ih | single _ _ ih | conditionTest _ ih => exact ih
  | subquery _ ih | existsTest _ _ ih | jsonObject _ ih | jsonArray _ ih | member _ _ ih
    | column _ _ ih | derivedTable _ _ ih | join _ _ _ ih | ordering _ _ ih | present _ ih
    | compareExpr _ _ ih =>
    simp only [stripped, render, ih]
  | compareField _ _ ih => simp only [stripped, render, fieldAllowed_stripped, ih]
  | caseWhen _ _ _ ihFirst ihRest ihOtherwise =>
    simp only [stripped, render, ihFirst, ihRest, ihOtherwise]
  | coalesce _ ih => simp only [stripped, render, isEmpty_stripped, ih]
  | paired _ _ ihField ihAssertion =>
    simp only [stripped, render, isComputed_stripped, ihField, ihAssertion]
  | compareTest _ _ ihLeft ihRight | branch _ _ ihLeft ihRight | cons _ _ ihLeft ihRight =>
    simp only [stripped, render, ihLeft, ihRight]
  | nested _ _ ih | groupTest _ ih => simp only [stripped, render, conjunctions_stripped, ih]
  | select columns source joins filter groupKeys having orderings attributes ihColumns ihSource
      ihJoins ihFilter ihGroupKeys ihHaving ihOrderings =>
    cases source with
    | absent => rfl
    | present source =>
      have hsource : render style (stripped source) = render style source :=
        eq_of_return_some ihSource
      simp only [stripped, render, renderHead_stripped style attributes.head ihColumns, hsource,
        ihJoins, ihFilter, ihGroupKeys, ihHaving, ihOrderings, conjunctions_stripped]
      rfl

end Node

/-! ## Whole statements -/

theorem Options.merge_assoc (base later latest : Options) :
    (base.merge later).merge latest = base.merge (later.merge latest) := by
  simp only [merge, Option.or_assoc]

namespace Select

/-- Statements that keep the same options and differ only in what is never read give the same
text and arguments, or the same error. -/
theorem toSqlWith_eq_of_stripped_eq {query other : Select} (hoptions : query.options = other.options)
    (hstripped : query.stripped = other.stripped) (options : Options) :
    query.toSqlWith options = other.toSqlWith options := by
  have hstyle : query.style options = other.style options := by
    rw [style, style, hoptions]
  have hrender : query.renderWith options = other.renderWith options := by
    calc query.renderWith options
        = Node.render (query.style options) query.stripped :=
          (Node.render_stripped _ query).symm
      _ = Node.render (other.style options) other.stripped := by rw [hstyle, hstripped]
      _ = other.renderWith options := Node.render_stripped _ other
  rw [toSqlWith_eq_prepare, toSqlWith_eq_prepare, hstyle, hrender]

/-- Merging into the options that are kept is merging into those given at the call. -/
theorem toSqlWith_step_options (query : Select) (later latest : Options) :
    (query.step (.options (query.options.merge later))).toSqlWith latest =
      query.toSqlWith (later.merge latest) := by
  have hkept : (query.step (.options (query.options.merge later))).options =
      query.options.merge later := rfl
  have hstyle : (query.step (.options (query.options.merge later))).style latest =
      query.style (later.merge latest) := by
    rw [style, style, hkept, Options.merge_assoc]
  have hstripped : (query.step (.options (query.options.merge later))).stripped =
      query.stripped := by
    cases query
    rfl
  rw [toSqlWith_eq_prepare, toSqlWith_eq_prepare, renderWith, renderWith, hstyle,
    ← Node.render_stripped, hstripped, Node.render_stripped]

/-- Options kept with inner statements and columns under a head that is given can be changed at
will. The options of the outermost statement act through merging only, and a call without shared
parameters is one with empty parameters. -/
theorem only_outermost_options_are_read :
    (∀ query other : Select, query.options = other.options → query.stripped = other.stripped →
      ∀ options, query.toSqlWith options = other.toSqlWith options) ∧
    (∀ (query : Select) (later latest : Options),
      (query.step (.options (query.options.merge later))).toSqlWith latest =
        query.toSqlWith (later.merge latest)) ∧
    ∀ (query : Select) (options : Options),
      query.toSqlWith options =
        match (query.renderWith options).run (Params.empty (query.style options).placeholder) with
        | .ok text params => .ok ⟨text, params.values⟩
        | .error error _ => .error error := by
  refine ⟨?_, toSqlWith_step_options, ?_⟩
  · intro query other hoptions hstripped options
    exact toSqlWith_eq_of_stripped_eq hoptions hstripped options
  · intro query options
    rw [toSqlWith_eq_prepare, prepare]
    cases (query.renderWith options).run (Params.empty (query.style options).placeholder) <;> rfl

/-- A subquery in JOIN whose head hides a column that could not be written. -/
theorem only_outermost_options_are_read_beside_join :
    let inner (columns : Node (.many .column)) (options : Options) : Select :=
      .select columns (.present (.namedTable "s" none)) .nil .nil .nil .nil .nil
        { head := some "SELECT 1", options }
    let outer (query : Select) : Select :=
      .select .nil (.present (.namedTable "t" none))
        (.cons (.join none (.derivedTable query "x") "1") .nil) .nil .nil .nil .nil
        { options := { indent := some "" } }
    let hidden : Node (.many .column) := .cons (.column (.computed (.coalesce .nil)) none) .nil
    let query := outer (inner hidden { flavor := some .postgresql, quoting := some .bare })
    let other := outer (inner .nil Options.empty)
    let text :=
      "SELECT\n*\nFROM\n\x60t\x60\nJOIN (SELECT 1\nFROM\n\x60s\x60) AS \x60x\x60 ON 1"
    query.options = other.options ∧ query.stripped = other.stripped ∧
      query.toSqlWith Options.empty = .ok ⟨text, #[]⟩ := by
  intro inner outer hidden query other text
  have hoptions : query.options = other.options := rfl
  have hstripped : query.stripped = other.stripped := rfl
  have hother : other.toSqlWith Options.empty = .ok ⟨text, #[]⟩ := by
    dsimp only [other, outer, inner, text]
    rfl
  obtain ⟨hsame, -, -⟩ := only_outermost_options_are_read
  exact ⟨hoptions, hstripped, (hsame query other hoptions hstripped Options.empty).trans hother⟩

end Select

end SqlSelect
