import SqlSelect.Proofs.Canonical
import SqlSelect.Proofs.Indistinguishable
import SqlSelect.Proofs.Spelling

/-!
# Quoting in another way

If none of the given strings holds a quote, the way to quote reaches the text through
the names alone, whatever becomes of them in nested statements. What is rendered in
double quotes or without any is then known from what is rendered in backticks, and so
is the number of backticks.
-/

namespace SqlSelect

open Document

/-- The given strings hold no quote, but for single quotes in keys, which are literals. -/
def quoteFree : Policy where
  identifier name := Unquoted name.toList
  fragment sql := Unquoted sql.toList
  key key := '\x60' ∉ key.toList ∧ '\x22' ∉ key.toList

/-! ## Computations for every way to quote -/

/-- Either there is a result for every way to quote, and together they have the property, or the
error is the same for all. -/
def Uniform {α : Type} (property : (Quoting → α) → Prop)
    (computation : Quoting → Except BuildError α) : Prop :=
  (∃ family, property family ∧ ∀ quoting, computation quoting = .ok (family quoting)) ∨
  ∃ error, ∀ quoting, computation quoting = .error error

namespace Uniform

variable {α β : Type} {earlier : (Quoting → α) → Prop} {property : (Quoting → β) → Prop}

theorem pure {family : Quoting → β} (h : property family) :
    Uniform property fun quoting ↦ Pure.pure (family quoting) :=
  .inl ⟨family, h, fun _ ↦ rfl⟩

theorem throw (error : BuildError) : Uniform property fun _ ↦ MonadExcept.throw error :=
  .inr ⟨error, fun _ ↦ rfl⟩

variable {first : Quoting → Except BuildError α} (hfirst : Uniform earlier first)
include hfirst

theorem bind {next : Quoting → α → Except BuildError β}
    (hnext : ∀ family, earlier family → Uniform property fun quoting ↦
      next quoting (family quoting)) :
    Uniform property fun quoting ↦ first quoting >>= next quoting := by
  obtain ⟨family, hfamily, hresult⟩ | ⟨error, herror⟩ := hfirst
  · simp only [hresult]
    exact hnext family hfamily
  · simp only [herror]
    exact .throw error

theorem map {layout : Quoting → α → β}
    (hlayout : ∀ family, earlier family → property fun quoting ↦
      layout quoting (family quoting)) :
    Uniform property fun quoting ↦ layout quoting <$> first quoting := by
  simp only [map_eq_pure_bind]
  exact hfirst.bind fun family hfamily ↦ .pure (hlayout family hfamily)

/-- What is ensured of each result holds of all together. -/
theorem and_ensures {known : α → Prop} (hknown : ∀ quoting, Ensures known (first quoting)) :
    Uniform (fun family ↦ earlier family ∧ ∀ quoting, known (family quoting)) first := by
  obtain ⟨family, hfamily, hresult⟩ | herror := hfirst
  · exact .inl ⟨family, ⟨hfamily, fun quoting ↦ hknown quoting _ (hresult quoting)⟩, hresult⟩
  · exact .inr herror

end Uniform

/-- What is spelled once it is made optional is spelled as it is. -/
theorem Uniform.of_some {names : List String} {computation : Quoting → Except BuildError Document}
    (h : Uniform (SpellsSome names) fun quoting ↦ some <$> computation quoting) :
    Uniform (Spells names) computation := by
  obtain ⟨family, hfamily, hresult⟩ | ⟨error, herror⟩ := h
  · cases hfamily with
    | none =>
      have hnone : some <$> computation .bare = .ok none := hresult .bare
      cases hbare : computation .bare <;> rw [hbare] at hnone <;> cases hnone
    | @some _ one hone =>
      exact .inl ⟨one, hone, fun quoting ↦ map_some_injective (hresult quoting)⟩
  · exact .inr ⟨error, fun quoting ↦ map_some_injective (herror quoting)⟩

theorem SpellsSome.demanded {names : List String} {family : Quoting → Option Document}
    (h : SpellsSome names family) (error : BuildError) :
    Uniform (Spells names) fun quoting ↦
      match family quoting with
      | .some document => pure document
      | .none => throw error := by
  cases h with
  | none => exact .throw error
  | some h => exact .pure h

namespace Node

/-! ## Names -/

/-- The names that are written, from left to right: those of fields and of tables, and aliases.
The columns under a head that is given are not written. -/
def identifiers : {kind : Kind} → Node kind → List String
  | _, name path => [path]
  | _, verbatim _ | _, literal _ | _, compareValue _ _ | _, compareList _ _ | _, nullTest _
  | _, raw _ => []
  | _, computed value => identifiers value
  | _, subquery query => identifiers query
  | _, inline field => identifiers field
  | _, compareField _ field => identifiers field
  | _, compareExpr _ value => identifiers value
  | _, existsTest query _ => identifiers query
  | _, caseWhen first rest otherwise =>
    identifiers first ++ identifiers rest ++ identifiers otherwise
  | _, coalesce arguments => identifiers arguments
  | _, jsonObject members => identifiers members
  | _, jsonArray element => identifiers element
  | _, paired field assertion => identifiers field ++ identifiers assertion
  | _, standalone value => identifiers value
  | _, single _ condition => identifiers condition
  | _, nested _ group => identifiers group
  | _, compareTest field assertion => identifiers field ++ identifiers assertion
  | _, conditionTest condition => identifiers condition
  | _, groupTest group => identifiers group
  | _, branch test result => identifiers test ++ identifiers result
  | _, member _ value => identifiers value
  | _, column field label => identifiers field ++ label.toList
  | _, namedTable table label => [table] ++ label.toList
  | _, derivedTable query label => identifiers query ++ [label]
  | _, join _ table _ => identifiers table
  | _, ordering field _ => identifiers field
  | _, select columns source joins filter groupKeys having orderings attributes =>
    (if attributes.head.isSome then [] else identifiers columns) ++ identifiers source ++
      identifiers joins ++ identifiers filter ++ identifiers groupKeys ++ identifiers having ++
      identifiers orderings
  | _, nil => []
  | _, cons first rest => identifiers first ++ identifiers rest
  | _, absent => []
  | _, present node => identifiers node

/-! ## Documents -/

/-- Which entries are blank is said by the tree. -/
theorem map_isBlank_document (style : Style) : ∀ entries : Group,
    Ensures (fun documents ↦ documents.map isBlank = entries.toList.map vanishes)
      (document style entries)
  | nil => .pure rfl
  | cons first rest => by
    rw [document]
    refine (isBlank_entry style first).bind fun document hfirst ↦ ?_
    refine (map_isBlank_document style rest).bind fun documents hrest ↦ .pure ?_
    rw [List.map_cons, toList_cons, List.map_cons, hfirst, hrest]

/-- The documents of a node for every way to quote. -/
def DocumentSpells (style : Style) {kind : Kind} (node : Node kind) : Prop :=
  Uniform (kind.Spells (identifiers node)) fun quoting ↦ document (style.withQuoting quoting) node

variable {style : Style}

theorem spells_of_present {category : Category} {node : Node (.one category)}
    (h : DocumentSpells style (present node)) : DocumentSpells style node := by
  unfold DocumentSpells at h
  simp only [document_present] at h
  exact h.of_some

theorem group_spells (h : style.QuoteFree) {entries : Group}
    (hentries : DocumentSpells style entries) :
    Uniform (SpellsSome (identifiers entries)) fun quoting ↦
      Group.document (style.withQuoting quoting) entries := by
  have hblanks := hentries.and_ensures fun quoting ↦
    map_isBlank_document (style.withQuoting quoting) entries
  refine hblanks.map fun family hfamily ↦ ?_
  exact h.group hfamily.1 (by simp [conjunctions]) hfamily.2

theorem head_spells (h : style.QuoteFree) {columns : Node (.many .column)}
    (hcolumns : DocumentSpells style columns) {given : Option String}
    (hgiven : ∀ text ∈ given, Unquoted text.toList) :
    Uniform (Spells (if given.isSome then [] else identifiers columns)) fun quoting ↦
      Reference.head (style.withQuoting quoting) given
        (document (style.withQuoting quoting) columns) := by
  cases given with
  | some text => exact .pure (.fixed (.of_unquoted (hgiven text rfl)))
  | none =>
    exact hcolumns.bind fun items hitems ↦ .pure ((h.columns hitems).lead (by decide))

theorem comparedList_spells (op : Operator) (values : List Value) :
    Uniform (Spells []) fun _ ↦ Reference.comparedList op values := by
  have hliterals : SpellsEach [] fun _ ↦ values.map Document.literal := by
    induction values with
    | nil => exact .nil
    | cons value rest ih => exact .cons (.literal value) ih
  have hlist := hliterals.separated (by decide : Text.Unticked ",")
  unfold Reference.comparedList
  split
  · exact .throw _
  · exact .throw _
  · exact .pure (hlist.enclosed.lead (by decide))
  · exact .pure (hlist.enclosed.lead (by decide))
  · next lower upper =>
    exact .pure (((Spells.literal lower).lead (by decide)).between (by decide) (.literal upper))
  · exact .throw _
  · exact .throw _

/-- The way to quote reaches a document through its names alone. -/
theorem document_spells (h : style.QuoteFree) {kind : Kind} (node : Node kind)
    (hobeys : node.Obeys quoteFree) : DocumentSpells style node := by
  have hoperator : ∀ op : Operator, Text.Unticked (op.sql ++ " ") := fun op ↦ by
    cases op <;> decide
  induction node with
  | name path => exact .pure (Spells.name hobeys)
  | verbatim sql | raw sql => exact .pure (Spells.fixed (.of_unquoted hobeys))
  | computed _ ih | inline _ ih | standalone _ ih | single _ _ ih | conditionTest _ ih =>
    exact ih hobeys
  | subquery query ih =>
    simp only [DocumentSpells, document]
    exact (ih hobeys).bind fun query hquery ↦ .pure (Spells.enclosed hquery)
  | literal value => exact .pure (Spells.literal value)
  | compareValue op value =>
    simp only [DocumentSpells, document]
    split
    · exact .throw _
    · exact .pure ((Spells.literal value).lead (hoperator op))
  | compareList op values => exact comparedList_spells op values
  | compareField op field ih =>
    simp only [DocumentSpells, document]
    split
    · exact (ih hobeys).bind fun field hfield ↦ .pure (Spells.lead (hoperator op) hfield)
    · exact .throw _
  | compareExpr op value ih =>
    simp only [DocumentSpells, document]
    split
    · exact .throw _
    · exact (ih hobeys).bind fun value hvalue ↦ .pure (Spells.lead (hoperator op) hvalue)
  | nullTest negated => exact .pure (Spells.fixed (by cases negated <;> decide))
  | existsTest query negated ih =>
    simp only [DocumentSpells, document]
    refine (ih hobeys).bind fun query hquery ↦ .pure ?_
    exact (Spells.enclosed hquery).lead (by cases negated <;> decide)
  | caseWhen first rest otherwise ihFirst ihRest ihOtherwise =>
    obtain ⟨hfirst, hrest, hotherwise⟩ := hobeys
    simp only [DocumentSpells, document]
    refine (ihFirst hfirst).bind fun first hfirst ↦ ?_
    refine (ihRest hrest).bind fun rest hrest ↦ ?_
    refine (ihOtherwise hotherwise).bind fun otherwise hotherwise ↦ .pure ?_
    have helse := SpellsSome.elim hotherwise fun hresult ↦
      hresult.lead (by decide : Text.Unticked " ELSE ")
    have hstart := Spells.lead (by decide : Text.Unticked "(CASE") hfirst
    exact ((hstart.append (SpellsEach.flatten hrest)).append helse).close (by decide)
  | coalesce arguments ih =>
    simp only [DocumentSpells, document]
    split
    · exact .throw _
    · refine (ih hobeys).bind fun arguments harguments ↦ .pure ?_
      exact (SpellsEach.separated harguments (by decide)).enclosed.lead (by decide)
  | jsonObject members ih =>
    simp only [DocumentSpells, document]
    refine (ih hobeys).bind fun members hmembers ↦ .pure ?_
    exact (SpellsEach.separated hmembers (by decide)).enclosed.lead
      (.of_unquoted h.jsonObjectFunction)
  | jsonArray element ih =>
    simp only [DocumentSpells, document]
    refine (ih hobeys).bind fun element helement ↦ .pure ?_
    exact (Spells.enclosed helement).lead (.of_unquoted h.jsonArrayFunction)
  | paired field assertion ihField ihAssertion =>
    simp only [DocumentSpells, document]
    refine (ihField hobeys.1).bind fun left hleft ↦ ?_
    refine (ihAssertion hobeys.2).bind fun right hright ↦ .pure ?_
    have hoperand : Spells (identifiers field) fun quoting ↦
        if field.isComputed then Reference.enclosed (left quoting) else left quoting := by
      split
      · exact Spells.enclosed hleft
      · exact hleft
    exact (hoperand.between (by decide) hright).enclosed
  | nested conjunction entries ih =>
    simp only [DocumentSpells, document_nested]
    exact (group_spells h (ih hobeys)).map fun group hgroup ↦ hgroup.elim Spells.enclosed
  | compareTest field assertion ihField ihAssertion =>
    simp only [DocumentSpells, document]
    refine (ihField hobeys.1).bind fun left hleft ↦ ?_
    refine (ihAssertion hobeys.2).bind fun right hright ↦ .pure ?_
    exact Spells.between hleft (by decide) hright
  | groupTest entries ih =>
    simp only [DocumentSpells, document_groupTest]
    exact (group_spells h (ih hobeys)).bind fun group hgroup ↦ hgroup.demanded _
  | branch test result ihTest ihResult =>
    simp only [DocumentSpells, document]
    refine (ihTest hobeys.1).bind fun test htest ↦ ?_
    refine (ihResult hobeys.2).bind fun result hresult ↦ .pure ?_
    exact (Spells.lead (by decide) htest).between (by decide) hresult
  | member key value ih =>
    simp only [DocumentSpells, document]
    refine (ih hobeys.2).bind fun value hvalue ↦ .pure ?_
    exact (Spells.fixed (.quoted hobeys.1.1)).between (by decide) hvalue
  | column field label ih =>
    simp only [DocumentSpells, document]
    exact (ih hobeys.1).bind fun field hfield ↦ .pure (style.labelled_spells hfield hobeys.2)
  | namedTable table label =>
    exact .pure (style.labelled_spells (.name hobeys.1) hobeys.2)
  | derivedTable query label ih =>
    simp only [DocumentSpells, document]
    refine (ih hobeys.1).bind fun query hquery ↦ .pure ?_
    have hlabel : ∀ given ∈ some label, Unquoted given.toList := by
      rintro given ⟨⟩
      exact hobeys.2
    exact style.labelled_spells (Spells.enclosed hquery) hlabel
  | join kind source condition ih =>
    simp only [DocumentSpells, document]
    refine (ih hobeys.1).bind fun table htable ↦ .pure ?_
    have hjoined : Spells (identifiers source) fun quoting ↦
        Reference.joined kind ++ table quoting := by
      cases kind with
      | none => exact Spells.lead (by decide) htable
      | some kind => exact Spells.lead (by cases kind <;> decide) htable
    exact hjoined.close (.append (by decide) (.of_unquoted hobeys.2))
  | ordering field direction ih =>
    simp only [DocumentSpells, document]
    refine (ih hobeys).bind fun field hfield ↦ .pure ?_
    exact Spells.close hfield (by cases direction <;> decide)
  | select columns source joins filter groupKeys having orderings attributes ihColumns ihSource
      ihJoins ihFilter ihGroupKeys ihHaving ihOrderings =>
    obtain ⟨hcolumns, hsource, hjoins, hfilter, hgroupKeys, hhaving, horderings, hhead⟩ := hobeys
    cases source with
    | absent => exact .throw _
    | present source =>
      simp only [DocumentSpells, document_select]
      refine (head_spells h (ihColumns hcolumns) hhead).bind fun head hhead ↦ ?_
      refine (spells_of_present (ihSource hsource)).bind fun source hsource ↦ ?_
      refine (ihJoins hjoins).bind fun joins hjoins ↦ ?_
      refine (group_spells h (ihFilter hfilter)).bind fun filter hfilter ↦ ?_
      refine (ihGroupKeys hgroupKeys).bind fun groupKeys hgroupKeys ↦ ?_
      refine (group_spells h (ihHaving hhaving)).bind fun having hhaving ↦ ?_
      refine (ihOrderings horderings).bind fun orderings horderings ↦ .pure ?_
      exact h.statement attributes hhead hsource hjoins hfilter hgroupKeys hhaving horderings
  | nil => exact .pure SpellsEach.nil
  | cons first rest ihFirst ihRest =>
    simp only [DocumentSpells, document]
    refine (ihFirst hobeys.1).bind fun first hfirst ↦ ?_
    exact (ihRest hobeys.2).bind fun rest hrest ↦ .pure (SpellsEach.cons hfirst hrest)
  | absent => exact .pure SpellsSome.none
  | present node ih =>
    simp only [DocumentSpells, document]
    exact (ih hobeys).bind fun node hnode ↦ .pure (SpellsSome.some hnode)

end Node

/-! ## Parts -/

namespace Part

/-- The names that are written in a part. -/
def identifiers : Part → List String
  | piece (.node one) => one.identifiers
  | piece (.columns items) => items.identifiers
  | piece (.groupKeys items) => items.identifiers
  | piece (.orderings items) => items.identifiers
  | group entries => entries.identifiers

theorem document_spells {style : Style} (h : style.QuoteFree) {part : Part}
    (hobeys : part.Obeys quoteFree) :
    Uniform (SpellsSome part.identifiers) fun quoting ↦
      part.document (style.withQuoting quoting) := by
  have hnode {kind : Kind} (node : Node kind) (hobeys : node.Obeys quoteFree) :=
    Node.document_spells h node hobeys
  cases part with
  | piece one =>
    cases one with
    | node one => exact (hnode one hobeys).map fun _ hone ↦ .some hone
    | columns items =>
      have hcolumns : Uniform (Spells items.identifiers) fun quoting ↦
          Piece.document (style.withQuoting quoting) (.columns items) :=
        (hnode items hobeys).map fun _ hitems ↦ h.columns hitems
      exact hcolumns.map fun _ hone ↦ .some hone
    | groupKeys items =>
      have hkeys : Uniform (Spells items.identifiers) fun quoting ↦
          Piece.document (style.withQuoting quoting) (.groupKeys items) :=
        (hnode items hobeys).map fun _ hitems ↦ SpellsEach.separated hitems (by decide)
      exact hkeys.map fun _ hone ↦ .some hone
    | orderings items =>
      have hlines : Uniform (Spells items.identifiers) fun quoting ↦
          Piece.document (style.withQuoting quoting) (.orderings items) :=
        (hnode items hobeys).map fun _ hitems ↦ h.lines hitems
      exact hlines.map fun _ hone ↦ .some hone
  | group entries => exact Node.group_spells h (hnode entries hobeys)

/-! ## Renderings in other quotes -/

section

variable {style : Style} (h : style.QuoteFree) {part : Part} (hobeys : part.Obeys quoteFree)
include h hobeys

theorem exists_documents :
    (∃ family, SpellsSome part.identifiers family ∧
      ∀ quoting, part.document (style.withQuoting quoting) = .ok (family quoting)) ∨
    ∃ error, ∀ quoting, part.document (style.withQuoting quoting) = .error error :=
  document_spells h hobeys

theorem document_eq_respelled (quoting : Quoting) (placeholder : Placeholder) (bound : Nat) :
    Option.map (write placeholder bound) <$> part.document (style.withQuoting quoting) =
      Option.map quoting.respelled <$> Option.map (write placeholder bound) <$>
        part.document (style.withQuoting .backtick) := by
  obtain ⟨family, hfamily, hresult⟩ | ⟨error, herror⟩ := exists_documents h hobeys
  · rw [hresult, hresult]
    exact congrArg Except.ok (hfamily.write_eq_respelled quoting placeholder bound)
  · rw [herror, herror]
    rfl

/-- What is rendered in any quotes is what is rendered in backticks, with those quotes put in. -/
theorem render_eq_respelled (quoting : Quoting) :
    part.render (style.withQuoting quoting) =
      Option.map quoting.respelled <$> part.render (style.withQuoting .backtick) := by
  funext params
  have hfollows := part.render_follows (style.withQuoting .backtick)
  apply eq_of_answer_eq
  · calc answer (part.render (style.withQuoting quoting) params)
        = Option.map (write params.placeholder params.size) <$>
            part.document (style.withQuoting quoting) :=
          (part.render_delivers _ params).answer_eq
      _ = Option.map quoting.respelled <$> Option.map (write params.placeholder params.size) <$>
            part.document (style.withQuoting .backtick) := document_eq_respelled h hobeys _ _ _
      _ = Option.map quoting.respelled <$>
            answer (part.render (style.withQuoting .backtick) params) := by
          rw [(part.render_delivers _ params).answer_eq]
          rfl
      _ = answer ((Option.map quoting.respelled <$>
            part.render (style.withQuoting .backtick)) params) := (answer_map _ _ params).symm
  · rw [(part.render_follows _).leftover_eq, hfollows.map.leftover_eq]

theorem count_backticks {params after : Params} {text? : Option String}
    (hrender : part.render (style.withQuoting .backtick) params = .ok text? after) :
    (text?.getD "").toList.count '\x60' = 2 * Identifier.countSegments part.identifiers := by
  obtain ⟨document?, hdocument, rfl, -⟩ :=
    ((part.render_delivers _ params).eq_ok_iff text? after).mp hrender
  obtain ⟨family, hfamily, hresult⟩ | ⟨error, herror⟩ := exists_documents h hobeys
  · rw [hresult] at hdocument
    cases hdocument
    exact hfamily.count_write params.placeholder params.size
  · rw [herror] at hdocument
    cases hdocument

end

end Part

/-! ## Double quotes, or none -/

namespace Text

def inDoubleQuotes (text : String) : String :=
  String.ofList (text.toList.map fun c ↦ if c = '\x60' then '\x22' else c)

def withoutBackticks (text : String) : String :=
  String.ofList (text.toList.filter fun c ↦ c != '\x60')

end Text

theorem Quoting.respelled_doubleQuote : (marked "\x22").respelled = Text.inDoubleQuotes := by
  funext text
  rw [respelled, Text.inDoubleQuotes, List.map_eq_flatMap]
  refine congrArg _ (congrArg (List.flatMap · text.toList) (funext fun c ↦ ?_))
  rw [respell]
  split <;> rfl

theorem Quoting.respelled_bare : bare.respelled = Text.withoutBackticks := by
  funext text
  rw [respelled, Text.withoutBackticks]
  refine congrArg _ ?_
  induction text.toList with
  | nil => rfl
  | cons c cs ih =>
    rw [List.flatMap_cons, List.filter_cons, ih, respell]
    by_cases htick : c = '\x60' <;> simp [htick, mark]

/-- If the given strings are free of quotes, then double quotes take the place of the backticks,
or nothing does, and all else stays as it is: what is bound, and why a rendering fails. There are
two backticks for each segment of a name that is written. -/
theorem quotes_change_only_themselves {style : Style} {part : Part} (hstyle : style.QuoteFree)
    (hpart : part.Obeys quoteFree) :
    part.render (style.withQuoting (.marked "\x22")) =
        Option.map Text.inDoubleQuotes <$> part.render (style.withQuoting (.marked "\x60")) ∧
      part.render (style.withQuoting .bare) =
        Option.map Text.withoutBackticks <$> part.render (style.withQuoting (.marked "\x60")) ∧
      ∀ params text? after,
        (part.render (style.withQuoting (.marked "\x60"))).run params = .ok text? after →
          (text?.getD "").toList.count '\x60' = 2 * Identifier.countSegments part.identifiers := by
  refine ⟨?_, ?_, ?_⟩
  · rw [← Quoting.respelled_doubleQuote]
    exact part.render_eq_respelled hstyle hpart _
  · rw [← Quoting.respelled_bare]
    exact part.render_eq_respelled hstyle hpart _
  · intro params text? after hrender
    exact part.count_backticks hstyle hpart hrender

/-- A path of two segments and an alias, behind a key with a quote in it. -/
theorem quotes_change_only_themselves_behind_key :
    let value : Field := .name "u.id"
    let part : Part := .piece (.node (.column
      (.computed (.jsonObject (.cons (.member "it's" value) .nil))) (some "n")))
    let style : Style := default
    let params := Params.empty .questionMark
    let text := "JSON_OBJECT('it''s', \x60u\x60.\x60id\x60) AS \x60n\x60"
    let requoted := "JSON_OBJECT('it''s', \x22u\x22.\x22id\x22) AS \x22n\x22"
    style.QuoteFree ∧ part.Obeys quoteFree ∧
      (part.render (style.withQuoting (.marked "\x60"))).run params = .ok (some text) params ∧
      (part.render (style.withQuoting (.marked "\x22"))).run params = .ok (some requoted) params ∧
      text.toList.count '\x60' = 2 * Identifier.countSegments ["u.id", "n"] := by
  intro value part style params text requoted
  have hstyle : style.QuoteFree := ⟨by decide, by decide, by decide⟩
  have hkey : quoteFree.key "it's" := ⟨by decide, by decide⟩
  have hvalue : value.Obeys quoteFree := by
    change Unquoted "u.id".toList
    decide
  have hlabel : ∀ given ∈ some "n", quoteFree.identifier given := by
    rintro given ⟨⟩
    change Unquoted "n".toList
    decide
  have hpart : part.Obeys quoteFree := ⟨⟨⟨hkey, hvalue⟩, trivial⟩, hlabel⟩
  have hrender : (part.render (style.withQuoting (.marked "\x60"))).run params =
      .ok (some text) params := rfl
  have hnames : part.identifiers = ["u.id", "n"] := rfl
  obtain ⟨hdouble, -, hcount⟩ := quotes_change_only_themselves hstyle hpart
  refine ⟨hstyle, hpart, hrender, ?_, ?_⟩
  · have htext : Text.inDoubleQuotes text = requoted := by decide
    rw [hdouble]
    exact map_eq_ok_iff.mpr ⟨some text, hrender, congrArg some htext⟩
  · have hcounted := hcount params (some text) params hrender
    rwa [hnames] at hcounted

end SqlSelect
