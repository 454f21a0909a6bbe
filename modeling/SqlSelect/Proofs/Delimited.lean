import SqlSelect.Proofs.Delimiters
import SqlSelect.Proofs.Indistinguishable

/-!
# Statements stay inside their delimiters

Rendering opens and closes delimiters in many places. Each part of a statement is
self-contained on its own, so the whole is, whatever is nested in it.
-/

namespace SqlSelect

open Document

/-- Identifiers stand between quotes of one kind, and what the style adds to the text opens and
closes nothing else. -/
structure Style.Delimits (style : Style) (quote : Char) : Prop where
  quote_mem : quote ∈ identifierQuotes
  quoting : style.quoting = .marked (String.singleton quote)
  functions : ∃ flavor : Flavor, style.jsonObjectFunction = flavor.jsonObjectFunction ∧
    style.jsonArrayFunction = flavor.jsonArrayFunction
  indent : SelfContained quote style.indent

/-- Names are free of quotes and fragments are self-contained. Keys may be any strings. -/
def delimited (quote : Char) : Policy where
  identifier name := Unquoted name.toList
  fragment := SelfContained quote
  key _ := True

/-- All documents of what a node yields have a property. -/
def Kind.All (property : Document → Prop) : (kind : Kind) → kind.Rendered Document → Prop
  | .one _, document => property document
  | .many _, documents => ∀ document ∈ documents, property document
  | .maybe _, document? => ∀ document ∈ document?, property document

namespace Style.Delimits

variable {style : Style} {quote : Char} (h : style.Delimits quote)
include h

theorem word (text : String) (hplain : text.toList.all isPlain) : SelfContained quote text :=
  .word h.quote_mem hplain

theorem identifier {name : String} (hname : Unquoted name.toList) :
    Sealed quote (fixed (style.identifier name)) := by
  rw [Style.identifier, h.quoting]
  exact .fixed (.identifier h.quote_mem hname)

theorem operator (op : Operator) : Sealed quote (fixed (op.sql ++ " ")) :=
  .fixed (.append (h.word _ (by cases op <;> decide)) (h.word _ (by decide)))

theorem jsonObjectFunction : Sealed quote (fixed style.jsonObjectFunction) := by
  obtain ⟨flavor, hobject, -⟩ := h.functions
  rw [hobject]
  exact .fixed (h.word _ (by cases flavor <;> decide))

theorem jsonArrayFunction : Sealed quote (fixed style.jsonArrayFunction) := by
  obtain ⟨flavor, -, harray⟩ := h.functions
  rw [harray]
  exact .fixed (h.word _ (by cases flavor <;> decide))

theorem labelled {document : Document} (hdocument : Sealed quote document)
    {label : Option String} (hlabel : ∀ given ∈ label, Unquoted given.toList) :
    Sealed quote (Reference.labelled style document label) := by
  cases label with
  | none => exact hdocument
  | some given =>
    have hidentifier := h.identifier (hlabel given rfl)
    exact (hdocument.append (.fixed (h.word _ (by decide)))).append hidentifier

theorem group {entries : List (Conjunction × Document)}
    (hentries : ∀ entry ∈ entries, Sealed quote entry.2) :
    ∀ document ∈ Reference.group style entries, Sealed quote document := by
  have hcontinuation : ∀ kept : List (Conjunction × Document),
      (∀ entry ∈ kept, Sealed quote entry.2) →
      Sealed quote (Reference.continuation style kept) := by
    intro kept hkept
    rw [Reference.continuation, List.flatMap_def]
    apply Sealed.flatten
    intro line hline
    obtain ⟨entry, hentry, rfl⟩ := List.mem_map.mp hline
    have hlead : SelfContained quote ("\n" ++ style.indent ++ entry.1.sql ++ " ") := by
      refine ((h.word _ (by decide)).append h.indent).append ?_ |>.append (h.word _ (by decide))
      exact h.word _ (by cases entry.1 <;> decide)
    exact (Sealed.fixed hlead).append (hkept entry hentry)
  have hkept : ∀ entry ∈ entries.filter fun entry ↦ !isBlank entry.2, Sealed quote entry.2 :=
    fun entry hentry ↦ hentries entry (List.mem_filter.mp hentry).1
  intro document hdocument
  unfold Reference.group at hdocument
  split at hdocument
  · cases hdocument
  · next first rest hfilter =>
    rw [hfilter] at hkept
    cases hdocument
    have hrest := hcontinuation rest fun entry hentry ↦
      hkept entry (List.mem_cons_of_mem first hentry)
    exact (hkept first List.mem_cons_self).append hrest

/-- The documents of a group, each led by its conjunction. -/
theorem group_zip {documents : List Document} (conjunctions : List Conjunction)
    (hdocuments : ∀ document ∈ documents, Sealed quote document) :
    ∀ document ∈ Reference.group style (conjunctions.zip documents), Sealed quote document :=
  h.group fun entry hentry ↦ hdocuments entry.2 (List.of_mem_zip hentry).2

theorem indented {document : Document} (hdocument : Sealed quote document) :
    Sealed quote (Reference.indented style document) :=
  (Sealed.fixed h.indent).append hdocument

theorem lines {items : List Document} (hitems : ∀ item ∈ items, Sealed quote item) :
    Sealed quote (Reference.lines style items) := by
  apply Sealed.separated (h.word _ (by decide))
  intro line hline
  obtain ⟨item, hitem, rfl⟩ := List.mem_map.mp hline
  exact h.indented (hitems item hitem)

theorem columns {items : List Document} (hitems : ∀ item ∈ items, Sealed quote item) :
    Sealed quote (Reference.columns style items) := by
  cases items with
  | nil => exact .fixed (h.indent.append (h.word _ (by decide)))
  | cons first rest => exact h.lines hitems

theorem groupKeys {items : List Document} (hitems : ∀ item ∈ items, Sealed quote item) :
    Sealed quote (separated "," items) :=
  .separated (h.word _ (by decide)) hitems

theorem head {given : Option String} (hgiven : ∀ text ∈ given, SelfContained quote text)
    {columns : Except BuildError (List Document)}
    (hcolumns : Ensures (fun items ↦ ∀ item ∈ items, Sealed quote item) columns) :
    Ensures (Sealed quote) (Reference.head style given columns) := by
  cases given with
  | some text => exact .pure (.fixed (hgiven text rfl))
  | none =>
    refine hcolumns.bind fun items hitems ↦ .pure ?_
    exact (Sealed.fixed (h.word _ (by decide))).append (h.columns hitems)

theorem joined (kind : Option JoinKind) : Sealed quote (Reference.joined kind) := by
  cases kind with
  | none => exact .fixed (h.word _ (by decide))
  | some kind =>
    exact .fixed ((h.word _ (by cases kind <;> decide)).append (h.word _ (by decide)))

theorem clause (keyword : String) (hkeyword : keyword.toList.all isPlain) {body : Option Document}
    (hbody : ∀ document ∈ body, Sealed quote document) :
    Sealed quote (Reference.clause keyword body) := by
  cases body with
  | none => exact .nil
  | some document =>
    have hlead : SelfContained quote ("\n" ++ keyword ++ "\n") :=
      ((h.word _ (by decide)).append (h.word keyword hkeyword)).append (h.word _ (by decide))
    exact (Sealed.fixed hlead).append (hbody document rfl)

omit h in
theorem listed {layout : List Document → Document}
    (hlayout : ∀ items, (∀ item ∈ items, Sealed quote item) → Sealed quote (layout items))
    {items : List Document} (hitems : ∀ item ∈ items, Sealed quote item) :
    ∀ document ∈ Reference.listed layout items, Sealed quote document := by
  intro document hdocument
  cases items with
  | nil => cases hdocument
  | cons first rest =>
    cases hdocument
    exact hlayout _ hitems

theorem count (keyword : String) (hkeyword : keyword.toList.all isPlain) (number : Option Nat) :
    Sealed quote (Reference.count keyword number) := by
  cases number with
  | none => exact .nil
  | some number =>
    have hlead := (h.word "\n" (by decide)).append (h.word keyword hkeyword)
    exact .fixed (hlead.append (.number h.quote_mem number))

theorem comparedList (op : Operator) (values : List Value) :
    Ensures (Sealed quote) (Reference.comparedList op values) := by
  have hliterals : ∀ item ∈ values.map Document.literal, Sealed quote item := by
    intro item hitem
    obtain ⟨value, -, rfl⟩ := List.mem_map.mp hitem
    exact .literal h.quote_mem value
  unfold Reference.comparedList
  split
  · exact .throw _
  · exact .throw _
  · exact .pure ((h.operator _).append ((h.groupKeys hliterals).enclosed h.quote_mem))
  · exact .pure ((h.operator _).append ((h.groupKeys hliterals).enclosed h.quote_mem))
  · next lower upper =>
    have hlower := (Sealed.fixed (h.word "BETWEEN " (by decide))).append
      (.literal h.quote_mem lower)
    have hbetween := hlower.append (.fixed (h.word " AND " (by decide)))
    exact .pure (hbetween.append (.literal h.quote_mem upper))
  · exact .throw _
  · exact .throw _

theorem body {document? : Option Document}
    (hdocument : ∀ document ∈ document?, Sealed quote document) :
    ∀ document ∈ document?.map (Reference.indented style), Sealed quote document := by
  intro document hmem
  obtain ⟨inner, hinner, rfl⟩ := Option.map_eq_some_iff.mp hmem
  exact h.indented (hdocument inner hinner)

theorem statement {parts : Reference.Parts} (attributes : Attributes)
    (hhead : Sealed quote parts.head) (hsource : Sealed quote parts.source)
    (hjoins : ∀ join ∈ parts.joins, Sealed quote join)
    (hfilter : ∀ group ∈ parts.filter, Sealed quote group)
    (hgroupKeys : ∀ key ∈ parts.groupKeys, Sealed quote key)
    (hhaving : ∀ group ∈ parts.having, Sealed quote group)
    (horderings : ∀ ordering ∈ parts.orderings, Sealed quote ordering) :
    Sealed quote (Reference.statement style parts attributes) := by
  have hjoined : Sealed quote (parts.joins.flatMap (fixed "\n" ++ ·)) := by
    rw [List.flatMap_def]
    apply Sealed.flatten
    intro line hline
    obtain ⟨join, hjoin, rfl⟩ := List.mem_map.mp hline
    exact (Sealed.fixed (h.word _ (by decide))).append (hjoins join hjoin)
  have hfrom := (hhead.append (.fixed (h.word "\nFROM\n" (by decide)))).append
    (h.indented hsource)
  have hwhere := h.clause "WHERE" (by decide) (h.body hfilter)
  have hgroupBy := h.clause "GROUP BY" (by decide)
    (listed (fun keys hkeys ↦ h.indented (h.groupKeys hkeys)) hgroupKeys)
  have hhavingClause := h.clause "HAVING" (by decide) (h.body hhaving)
  have horderBy := h.clause "ORDER BY" (by decide)
    (listed (fun items hitems ↦ h.lines hitems) horderings)
  have hlimit := h.count "LIMIT " (by decide) attributes.limit
  have hoffset := h.count "OFFSET " (by decide) attributes.offset
  exact ((((((hfrom.append hjoined).append hwhere).append hgroupBy).append hhavingClause).append
    horderBy).append hlimit).append hoffset

end Style.Delimits

namespace Node

variable {style : Style} {quote : Char}

theorem subquery_bracketed {query : Select}
    (hquery : Ensures (Sealed quote) (document style query)) :
    Ensures (Bracketed quote) (document style (subquery query)) := by
  rw [document]
  exact hquery.bind fun query hquery ↦ .pure ⟨query, hquery, rfl⟩

section

variable (h : style.Delimits quote)
include h

theorem paired_bracketed {field : Field} {assertion : Expr}
    (hfield : Ensures (Sealed quote) (document style field))
    (hassertion : Ensures (Sealed quote) (document style assertion)) :
    Ensures (Bracketed quote) (document style (paired field assertion)) := by
  rw [document]
  refine hfield.bind fun left hleft ↦ hassertion.bind fun right hright ↦ .pure ⟨_, ?_, rfl⟩
  have hoperand : Sealed quote (if field.isComputed then Reference.enclosed left else left) := by
    split
    · exact Sealed.enclosed h.quote_mem hleft
    · exact hleft
  exact (hoperand.append (.fixed (h.word _ (by decide)))).append hright

theorem nested_bracketed (conjunction : Conjunction) {entries : Group}
    (hentries : Ensures ((Kind.many .entry).All (Sealed quote)) (document style entries)) :
    Ensures (fun document ↦ document = [] ∨ Bracketed quote document)
      (document style (nested conjunction entries)) := by
  rw [document]
  refine hentries.bind fun documents hdocuments ↦ .pure ?_
  have hgroup := h.group_zip entries.conjunctions hdocuments
  cases hresult : Reference.group style (entries.conjunctions.zip documents) with
  | none => exact .inl rfl
  | some document => exact .inr ⟨document, hgroup document hresult, rfl⟩

end

/-- What holds of a node that is present holds of the node. -/
theorem ensures_of_present {category : Category} {node : Node (.one category)}
    {property : Document → Prop}
    (h : Ensures ((Kind.maybe category).All property) (document style (present node))) :
    Ensures property (document style node) := by
  intro result hresult
  have hpresent : document style (present node) = .ok (some result) := by
    rw [document, hresult]
    rfl
  exact h (some result) hpresent result rfl

theorem document_sealed (h : style.Delimits quote) {kind : Kind} (node : Node kind)
    (hobeys : node.Obeys (delimited quote)) :
    Ensures (kind.All (Sealed quote)) (document style node) := by
  induction node with
  | name path => exact .pure (h.identifier hobeys)
  | verbatim sql | raw sql => exact .pure (.fixed hobeys)
  | computed value ih | inline value ih | standalone value ih | single _ value ih
    | conditionTest value ih => exact ih hobeys
  | subquery query ih =>
    exact (subquery_bracketed (ih hobeys)).mono fun _ hbracketed ↦ hbracketed.sealed h.quote_mem
  | literal value => exact .pure (.literal h.quote_mem value)
  | compareValue op value =>
    rw [document]
    split
    · exact .throw _
    · exact .pure ((h.operator op).append (.literal h.quote_mem value))
  | compareList op values => exact h.comparedList op values
  | compareField op field ih =>
    rw [document]
    split
    · exact (ih hobeys).bind fun field hfield ↦ .pure ((h.operator op).append hfield)
    · exact .throw _
  | compareExpr op value ih =>
    rw [document]
    split
    · exact .throw _
    · exact (ih hobeys).bind fun value hvalue ↦ .pure ((h.operator op).append hvalue)
  | nullTest negated => exact .pure (.fixed (h.word _ (by cases negated <;> decide)))
  | existsTest query negated ih =>
    rw [document]
    refine (ih hobeys).bind fun query hquery ↦ .pure ?_
    have hkeyword := h.word (if negated then "NOT EXISTS " else "EXISTS ")
      (by cases negated <;> decide)
    exact (Sealed.fixed hkeyword).append (Sealed.enclosed h.quote_mem hquery)
  | caseWhen first rest otherwise ihFirst ihRest ihOtherwise =>
    obtain ⟨hfirst, hrest, hotherwise⟩ := hobeys
    rw [document]
    refine (ihFirst hfirst).bind fun first hfirst ↦ ?_
    refine (ihRest hrest).bind fun rest hrest ↦ ?_
    refine (ihOtherwise hotherwise).bind fun otherwise hotherwise ↦ .pure ?_
    -- The parenthesis that the keyword CASE brings is closed together with END.
    have helse : Sealed quote (otherwise.elim [] (fixed " ELSE " ++ ·)) := by
      cases otherwise with
      | none => exact .nil
      | some result => exact (Sealed.fixed (h.word _ (by decide))).append (hotherwise result rfl)
    have hbranches := (Sealed.append hfirst (.flatten hrest)).append helse
    have hinner := (Sealed.append (.fixed (h.word "CASE" (by decide))) hbranches).append
      (.fixed (h.word " END" (by decide)))
    have hstart : ∀ text, "(CASE" ++ text = "(" ++ ("CASE" ++ text) := by
      intro text
      rw [← String.append_assoc]
      rfl
    intro placeholder bound
    have hwritten := hinner.enclosed h.quote_mem placeholder bound
    simpa [Layout.parenthesized, String.append_assoc, hstart] using hwritten
  | coalesce arguments ih =>
    rw [document]
    split
    · exact .throw _
    · refine (ih hobeys).bind fun arguments harguments ↦ .pure ?_
      have hlist := Sealed.separated (h.word ", " (by decide)) harguments
      exact (Sealed.fixed (h.word _ (by decide))).append (hlist.enclosed h.quote_mem)
  | jsonObject members ih =>
    rw [document]
    refine (ih hobeys).bind fun members hmembers ↦ .pure ?_
    have hlist := Sealed.separated (h.word ", " (by decide)) hmembers
    exact h.jsonObjectFunction.append (hlist.enclosed h.quote_mem)
  | jsonArray element ih =>
    rw [document]
    refine (ih hobeys).bind fun element helement ↦ .pure ?_
    exact h.jsonArrayFunction.append (Sealed.enclosed h.quote_mem helement)
  | paired field assertion ihField ihAssertion =>
    exact (paired_bracketed h (ihField hobeys.1) (ihAssertion hobeys.2)).mono
      fun _ hbracketed ↦ hbracketed.sealed h.quote_mem
  | nested conjunction entries ih =>
    refine (nested_bracketed h conjunction (ih hobeys)).mono fun document hdocument ↦ ?_
    rcases hdocument with rfl | hbracketed
    · exact .nil
    · exact hbracketed.sealed h.quote_mem
  | compareTest field assertion ihField ihAssertion =>
    rw [document]
    refine (ihField hobeys.1).bind fun left hleft ↦ ?_
    refine (ihAssertion hobeys.2).bind fun right hright ↦ .pure ?_
    exact (Sealed.append hleft (.fixed (h.word _ (by decide)))).append hright
  | groupTest entries ih =>
    rw [document]
    refine (ih hobeys).bind fun documents hdocuments ↦ ?_
    have hgroup := h.group_zip entries.conjunctions hdocuments
    cases hresult : Reference.group style (entries.conjunctions.zip documents) with
    | none => exact .throw _
    | some document => exact .pure (hgroup document hresult)
  | branch test result ihTest ihResult =>
    rw [document]
    refine (ihTest hobeys.1).bind fun test htest ↦ ?_
    refine (ihResult hobeys.2).bind fun result hresult ↦ .pure ?_
    have hwhen := (Sealed.fixed (h.word " WHEN " (by decide))).append htest
    exact (hwhen.append (.fixed (h.word " THEN " (by decide)))).append hresult
  | member key value ih =>
    have hapostrophe : quote ≠ '\x27' := by
      rintro rfl
      exact absurd h.quote_mem (by decide)
    rw [document]
    refine (ih hobeys.2).bind fun value hvalue ↦ .pure ?_
    have hkey : Sealed quote (fixed (Text.quoted key)) := .fixed (.quoted hapostrophe key)
    exact (hkey.append (.fixed (h.word ", " (by decide)))).append hvalue
  | column field label ih =>
    rw [document]
    exact (ih hobeys.1).bind fun field hfield ↦ .pure (h.labelled hfield hobeys.2)
  | namedTable table label =>
    exact .pure (h.labelled (h.identifier hobeys.1) hobeys.2)
  | derivedTable query label ih =>
    rw [document]
    refine (ih hobeys.1).bind fun query hquery ↦ .pure ?_
    refine h.labelled (Sealed.enclosed h.quote_mem hquery) ?_
    rintro given ⟨⟩
    exact hobeys.2
  | join kind table condition ih =>
    rw [document]
    refine (ih hobeys.1).bind fun table htable ↦ .pure ?_
    have hcondition : Sealed quote (fixed (" ON " ++ condition)) :=
      .fixed ((h.word _ (by decide)).append hobeys.2)
    exact ((h.joined kind).append htable).append hcondition
  | ordering field direction ih =>
    rw [document]
    refine (ih hobeys).bind fun field hfield ↦ .pure ?_
    have hdirection := (h.word " " (by decide)).append
      (h.word direction.sql (by cases direction <;> decide))
    exact Sealed.append hfield (.fixed hdirection)
  | select columns source joins filter groupKeys having orderings attributes ihColumns ihSource
      ihJoins ihFilter ihGroupKeys ihHaving ihOrderings =>
    obtain ⟨hcolumns, hsource, hjoins, hfilter, hgroupKeys, hhaving, horderings, hhead⟩ := hobeys
    cases source with
    | absent => exact .throw _
    | present source =>
      have hsource := ensures_of_present (ihSource hsource)
      rw [document]
      refine (h.head hhead (ihColumns hcolumns)).bind fun head hhead ↦ ?_
      refine hsource.bind fun source hsource ↦ ?_
      refine (ihJoins hjoins).bind fun joins hjoins ↦ ?_
      refine (ihFilter hfilter).bind fun filterDocuments hfilterDocuments ↦ ?_
      refine (ihGroupKeys hgroupKeys).bind fun groupKeys hgroupKeys ↦ ?_
      refine (ihHaving hhaving).bind fun havingDocuments hhavingDocuments ↦ ?_
      refine (ihOrderings horderings).bind fun orderings horderings ↦ .pure ?_
      exact h.statement attributes hhead hsource hjoins
        (h.group_zip filter.conjunctions hfilterDocuments) hgroupKeys
        (h.group_zip having.conjunctions hhavingDocuments) horderings
  | nil => exact .pure (by rintro document ⟨⟩)
  | cons first rest ihFirst ihRest =>
    rw [document]
    refine (ihFirst hobeys.1).bind fun first hfirst ↦ ?_
    refine (ihRest hobeys.2).bind fun rest hrest ↦ .pure ?_
    intro document hdocument
    rcases List.mem_cons.mp hdocument with rfl | hmem
    · exact hfirst
    · exact hrest document hmem
  | absent => exact .pure (by rintro document ⟨⟩)
  | present node ih =>
    rw [document]
    refine (ih hobeys).bind fun document hdocument ↦ .pure ?_
    rintro _ ⟨⟩
    exact hdocument

end Node

/-! ## Rendered texts -/

namespace Node

theorem ensures_of_render {style : Style} {category : Category} {node : Node (.one category)}
    {property : String → Prop}
    (h : Ensures (fun document : Document ↦
      ∀ placeholder bound, property (write placeholder bound document)) (document style node))
    {params after : Params} {text : String}
    (hrender : (render style node).run params = .ok text after) : property text := by
  obtain ⟨document, hdocument, htext, -⟩ :=
    ((render_delivers style node params).eq_ok_iff text after).mp hrender
  rw [htext]
  exact h document hdocument params.placeholder params.size

end Node

theorem Part.document_sealed {style : Style} {quote : Char} (h : style.Delimits quote) (part : Part)
    (hobeys : part.Obeys (delimited quote)) :
    Ensures ((Kind.maybe .entry).All (Sealed quote)) (part.document style) := by
  have hone : ∀ document : Document, Sealed quote document →
      (Kind.maybe .entry).All (Sealed quote) (some document) := by
    rintro document hdocument _ ⟨⟩
    exact hdocument
  cases part with
  | piece piece =>
    cases piece with
    | node one => exact (Node.document_sealed h one hobeys).map hone
    | columns items =>
      have hitems := Node.document_sealed h items hobeys
      exact (hitems.map fun _ hdocuments ↦ h.columns hdocuments).map hone
    | groupKeys items =>
      have hitems := Node.document_sealed h items hobeys
      exact (hitems.map fun _ hdocuments ↦ h.groupKeys hdocuments).map hone
    | orderings items =>
      have hitems := Node.document_sealed h items hobeys
      exact (hitems.map fun _ hdocuments ↦ h.lines hdocuments).map hone
  | group entries =>
    have hentries := Node.document_sealed h entries hobeys
    exact hentries.map fun _ hdocuments ↦ h.group_zip entries.conjunctions hdocuments

/-- Names cannot break out of their quotes nor keys out of theirs, and parentheses stay matched: a
text is self-contained, and conditions on a field, nested groups that do not vanish and subqueries
stand in parentheses of their own. -/
theorem text_stays_delimited {style : Style} {quote : Char} (h : style.Delimits quote) :
    (∀ (part : Part) (params after : Params) (text : String), part.Obeys (delimited quote) →
      (part.render style).run params = .ok (some text) after → SelfContained quote text) ∧
    (∀ (field : Field) (assertion : Expr) (params after : Params) (text : String),
      (Node.paired field assertion).Obeys (delimited quote) →
      (Node.render style (.paired field assertion)).run params = .ok text after →
      Enclosed quote text) ∧
    (∀ (conjunction : Conjunction) (entries : Group) (params after : Params) (text : String),
      (Node.nested conjunction entries).Obeys (delimited quote) →
      (Node.nested conjunction entries).vanishes = false →
      (Node.render style (.nested conjunction entries)).run params = .ok text after →
      Enclosed quote text) ∧
    ∀ (query : Select) (params after : Params) (text : String),
      (Node.subquery query).Obeys (delimited quote) →
      (Node.render style (.subquery query)).run params = .ok text after →
      Enclosed quote text := by
  have hbracketed : ∀ document : Document, Bracketed quote document →
      ∀ placeholder bound, Enclosed quote (write placeholder bound document) :=
    fun _ hdocument ↦ hdocument.write_enclosed h.quote_mem
  refine ⟨?_, ?_, ?_, ?_⟩
  · intro part params after text hobeys hrender
    obtain ⟨document, hdocument, htext, -⟩ :=
      ((part.render_delivers style params).eq_ok_iff (some text) after).mp hrender
    obtain ⟨inner, hinner, rfl⟩ := Option.map_eq_some_iff.mp htext.symm
    exact part.document_sealed h hobeys document hdocument inner hinner _ _
  · intro field assertion params after text hobeys hrender
    have hfield := Node.document_sealed h field hobeys.1
    have hassertion := Node.document_sealed h assertion hobeys.2
    exact Node.ensures_of_render ((Node.paired_bracketed h hfield hassertion).mono hbracketed)
      hrender
  · intro conjunction entries params after text hobeys hvanishes hrender
    have hentries := Node.document_sealed h entries hobeys
    have hblank := Node.isBlank_nested style conjunction (Node.isBlank_entries style entries)
    have hdocument := (Node.nested_bracketed h conjunction hentries).and hblank
    refine Node.ensures_of_render (hdocument.mono ?_) hrender
    rintro document ⟨rfl | hinner, hwritten⟩
    · exact absurd (hwritten.trans hvanishes) (by simp)
    · exact hbracketed document hinner
  · intro query params after text hobeys hrender
    have hquery := Node.document_sealed h query hobeys
    exact Node.ensures_of_render ((Node.subquery_bracketed hquery).mono hbracketed) hrender

theorem default_delimits : (default : Style).Delimits '\x60' where
  quote_mem := by decide
  quoting := by decide
  functions := ⟨.mysql, rfl, rfl⟩
  indent := by decide

/-- Parentheses in a name and both quotes and parentheses in a key. -/
theorem text_stays_delimited_around_odd_strings :
    let field : Field := .computed (.jsonObject (.cons (.member "it's (" (.name "a).b")) .nil))
    let assertion : Expr := .compareValue .eq (.string ")")
    let text := "((JSON_OBJECT('it''s (', \x60a)\x60.\x60b\x60)) = ?)"
    (Node.render default (.paired field assertion)).run default =
        .ok text (Params.push default (.string ")")) ∧
      (Node.paired field assertion).Obeys (delimited '\x60') ∧ Enclosed '\x60' text := by
  intro field assertion text
  have hrender : (Node.render default (.paired field assertion)).run default =
      .ok text (Params.push default (.string ")")) := rfl
  have hname : Unquoted "a).b".toList := by decide
  have hobeys : (Node.paired field assertion).Obeys (delimited '\x60') :=
    ⟨⟨⟨trivial, hname⟩, trivial⟩, trivial⟩
  exact ⟨hrender, hobeys, (text_stays_delimited default_delimits).2.1 _ _ _ _ _ hobeys hrender⟩

end SqlSelect
