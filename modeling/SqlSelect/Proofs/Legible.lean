import SqlSelect.Proofs.Delimited
import SqlSelect.Proofs.Marks

/-!
# Readers find the placeholders that were bound

Every text that is put after another starts with a keyword, a comma, a parenthesis or
a line break, so a number is never prolonged. If the given strings hold no marks
either, the placeholders can be read off the text of any statement.
-/

namespace SqlSelect

open Document

/-- Nothing that the style adds to a text looks like a placeholder. -/
structure Style.Unmarked (style : Style) : Prop where
  indent : Text.Unmarked style.indent
  quoting : ∀ quote, style.quoting = .marked quote → Text.Unmarked quote
  jsonObjectFunction : Text.Unmarked style.jsonObjectFunction
  jsonArrayFunction : Text.Unmarked style.jsonArrayFunction

/-- None of the strings in a tree looks like a placeholder. -/
def unmarked : Policy where
  identifier := Text.Unmarked
  fragment := Text.Unmarked
  key := Text.Unmarked

/-! ## Strings -/

theorem mem_of_mem_intercalate {separator : List Char} {segments : List (List Char)} {c : Char}
    (h : c ∈ separator.intercalate segments) :
    c ∈ separator ∨ ∃ segment ∈ segments, c ∈ segment := by
  induction segments with
  | nil => cases h
  | cons first rest ih =>
    cases rest with
    | nil => exact .inr ⟨first, List.mem_singleton_self first, by simpa using h⟩
    | cons second rest =>
      rw [List.intercalate_cons_cons, List.mem_append, List.mem_append] at h
      rcases h with (hfirst | hseparator) | hrest
      · exact .inr ⟨first, List.mem_cons_self, hfirst⟩
      · exact .inl hseparator
      · obtain hseparator | ⟨segment, hsegment, hc⟩ := ih hrest
        · exact .inl hseparator
        · exact .inr ⟨segment, List.mem_cons_of_mem first hsegment, hc⟩

/-- An identifier holds the characters of its name, those of the quote and dots. -/
theorem mem_of_mem_identifier {quote name : List Char} {c : Char}
    (h : c ∈ Identifier.quotePath quote name) : c = '.' ∨ c ∈ quote ∨ c ∈ name := by
  obtain hdot | ⟨quoted, hquoted, hc⟩ := mem_of_mem_intercalate h
  · exact .inl (List.mem_singleton.mp hdot)
  · obtain ⟨segment, hsegment, rfl⟩ := List.mem_map.mp hquoted
    have hname : c ∈ segment → c ∈ name := by
      intro hmem
      have hpath : ['.'].intercalate (Identifier.segments name) = name :=
        List.intercalate_splitOn '.'
      rw [← hpath]
      exact mem_intercalate_of_mem hsegment hmem
    unfold Identifier.quoteSegment at hc
    split at hc
    · exact .inr (.inr (hname hc))
    · rw [List.mem_append, List.mem_append] at hc
      rcases hc with (hopen | hmem) | hclose
      · exact .inr (.inl hopen)
      · exact .inr (.inr (hname hmem))
      · exact .inr (.inl hclose)

theorem Text.Unmarked.quoted {key : String} (h : Text.Unmarked key) :
    Text.Unmarked (Text.quoted key) := by
  have hmem : ∀ c ∈ (Text.quoted key).toList, c = '\x27' ∨ c ∈ key.toList := by
    intro c hc
    rw [Text.toList_quoted, List.mem_cons, List.mem_append, List.mem_singleton] at hc
    rcases hc with hc | hc | hc
    · exact .inl hc
    · exact .inr (mem_of_mem_doubleQuotes hc)
    · exact .inl hc
  constructor
  · intro hmark
    exact (hmem _ hmark).elim (by decide) h.1
  · intro hmark
    exact (hmem _ hmark).elim (by decide) h.2

namespace Style.Unmarked

variable {style : Style} (h : style.Unmarked)
include h

theorem identifier {name : String} (hname : Text.Unmarked name) :
    Text.Unmarked (style.identifier name) := by
  unfold Style.identifier
  cases hquoting : style.quoting with
  | bare => exact hname
  | marked quote =>
    have hquote := h.quoting quote hquoting
    unfold Text.Unmarked
    rw [Quoting.toList_apply_marked]
    constructor
    · intro hmark
      rcases mem_of_mem_identifier hmark with hdot | hmem | hmem
      · exact absurd hdot (by decide)
      · exact hquote.1 hmem
      · exact hname.1 hmem
    · intro hmark
      rcases mem_of_mem_identifier hmark with hdot | hmem | hmem
      · exact absurd hdot (by decide)
      · exact hquote.2 hmem
      · exact hname.2 hmem

/-! ## Parts of a text -/

theorem labelled {document : Document} (hdocument : Legible document) {label : Option String}
    (hlabel : ∀ given ∈ label, Text.Unmarked given) :
    Legible (Reference.labelled style document label) := by
  cases label with
  | none => exact hdocument
  | some given => exact hdocument.between (by decide) (.fixed (h.identifier (hlabel given rfl)))

theorem indented {document : Document} (hdocument : Legible document) :
    Legible (Reference.indented style document) :=
  .lead h.indent hdocument

theorem lines {items : List Document} (hitems : ∀ item ∈ items, Legible item) :
    Legible (Reference.lines style items) := by
  apply Legible.separated (by decide)
  intro line hline
  obtain ⟨item, hitem, rfl⟩ := List.mem_map.mp hline
  exact h.indented (hitems item hitem)

theorem columns {items : List Document} (hitems : ∀ item ∈ items, Legible item) :
    Legible (Reference.columns style items) := by
  cases items with
  | nil => exact .fixed (h.indent.append (by decide))
  | cons first rest => exact h.lines hitems

theorem continuation {entries : List (Conjunction × Document)}
    (hentries : ∀ entry ∈ entries, Legible entry.2) :
    Trails (Reference.continuation style entries) := by
  rw [Reference.continuation, List.flatMap_def]
  apply Trails.flatten
  intro line hline
  obtain ⟨entry, hentry, rfl⟩ := List.mem_map.mp hline
  have hbreak : Text.Separates ("\n" ++ style.indent) := .append (by decide) h.indent
  have hlead : Text.Separates ("\n" ++ style.indent ++ entry.1.sql) :=
    hbreak.append (by cases entry.1 <;> decide)
  exact .lead (hlead.append (by decide)) (hentries entry hentry)

theorem group {documents : List Document} (conjunctions : List Conjunction)
    (hdocuments : ∀ document ∈ documents, Legible document) :
    ∀ document ∈ Reference.group style (conjunctions.zip documents), Legible document := by
  have hkept : ∀ entry ∈ (conjunctions.zip documents).filter fun entry ↦ !isBlank entry.2,
      Legible entry.2 :=
    fun entry hentry ↦ hdocuments entry.2 (List.of_mem_zip (List.mem_filter.mp hentry).1).2
  intro document hdocument
  unfold Reference.group at hdocument
  split at hdocument
  · cases hdocument
  · next first rest hfilter =>
    rw [hfilter, List.forall_mem_cons] at hkept
    cases hdocument
    exact hkept.1.append (h.continuation hkept.2)

theorem head {given : Option String} (hgiven : ∀ text ∈ given, Text.Unmarked text)
    {columns : Except BuildError (List Document)}
    (hcolumns : Ensures (fun items ↦ ∀ item ∈ items, Legible item) columns) :
    Ensures Legible (Reference.head style given columns) := by
  cases given with
  | some text => exact .pure (.fixed (hgiven text rfl))
  | none => exact hcolumns.bind fun items hitems ↦ .pure (.lead (by decide) (h.columns hitems))

end Style.Unmarked

theorem commaSeparated_legible {items : List Document} (hitems : ∀ item ∈ items, Legible item) :
    Legible (separated "," items) :=
  .separated (by decide) hitems

theorem comparedList_legible (op : Operator) (values : List Value) :
    Ensures Legible (Reference.comparedList op values) := by
  have hliterals : ∀ item ∈ values.map Document.literal, Legible item := by
    intro item hitem
    obtain ⟨value, -, rfl⟩ := List.mem_map.mp hitem
    exact .literal value
  have hlist := commaSeparated_legible hliterals
  unfold Reference.comparedList
  split
  · exact .throw _
  · exact .throw _
  · exact .pure (.lead (by decide) hlist.enclosed)
  · exact .pure (.lead (by decide) hlist.enclosed)
  · next lower upper =>
    exact .pure ((Legible.lead (by decide) (.literal lower)).between (by decide) (.literal upper))
  · exact .throw _
  · exact .throw _

/-! ## Statements -/

namespace Style.Unmarked

theorem clause (keyword : String) (hkeyword : Text.Unmarked keyword) {body : Option Document}
    (hbody : ∀ document ∈ body, Legible document) : Trails (Reference.clause keyword body) := by
  cases body with
  | none => exact .nil
  | some document =>
    have hlead : Text.Separates ("\n" ++ keyword ++ "\n") :=
      (Text.Separates.append (by decide) hkeyword).append (by decide)
    exact .lead hlead (hbody document rfl)

theorem count (keyword : String) (hkeyword : Text.Unmarked keyword) (number : Option Nat) :
    Trails (Reference.count keyword number) := by
  cases number with
  | none => exact .nil
  | some number =>
    have hnumber : Text.Unmarked (toString number) :=
      Text.unmarked_of_isDigit fun _ ↦ Text.isDigit_of_mem_toString
    exact .fixed ((Text.Separates.append (by decide) hkeyword).append hnumber)

theorem listed {layout : List Document → Document}
    (hlayout : ∀ items, (∀ item ∈ items, Legible item) → Legible (layout items))
    {items : List Document} (hitems : ∀ item ∈ items, Legible item) :
    ∀ document ∈ Reference.listed layout items, Legible document := by
  intro document hdocument
  cases items with
  | nil => cases hdocument
  | cons first rest =>
    cases hdocument
    exact hlayout _ hitems

variable {style : Style} (h : style.Unmarked)
include h

theorem body {document? : Option Document} (hdocument : ∀ document ∈ document?, Legible document) :
    ∀ document ∈ document?.map (Reference.indented style), Legible document := by
  intro document hmem
  obtain ⟨inner, hinner, rfl⟩ := Option.map_eq_some_iff.mp hmem
  exact h.indented (hdocument inner hinner)

theorem statement {parts : Reference.Parts} (attributes : Attributes)
    (hhead : Legible parts.head) (hsource : Legible parts.source)
    (hjoins : ∀ join ∈ parts.joins, Legible join)
    (hfilter : ∀ group ∈ parts.filter, Legible group)
    (hgroupKeys : ∀ key ∈ parts.groupKeys, Legible key)
    (hhaving : ∀ group ∈ parts.having, Legible group)
    (horderings : ∀ ordering ∈ parts.orderings, Legible ordering) :
    Legible (Reference.statement style parts attributes) := by
  have hjoined : Trails (parts.joins.flatMap (fixed "\n" ++ ·)) := by
    rw [List.flatMap_def]
    apply Trails.flatten
    intro line hline
    obtain ⟨join, hjoin, rfl⟩ := List.mem_map.mp hline
    exact .lead (by decide) (hjoins join hjoin)
  have hfrom : Legible (parts.head ++ fixed "\nFROM\n" ++ Reference.indented style parts.source) :=
    hhead.between (by decide) (h.indented hsource)
  have hwhere := clause "WHERE" (by decide) (h.body hfilter)
  have hgroupBy := clause "GROUP BY" (by decide)
    (listed (fun keys hkeys ↦ h.indented (commaSeparated_legible hkeys)) hgroupKeys)
  have hhavingClause := clause "HAVING" (by decide) (h.body hhaving)
  have horderBy := clause "ORDER BY" (by decide)
    (listed (fun items hitems ↦ h.lines hitems) horderings)
  have hlimit := count "LIMIT " (by decide) attributes.limit
  have hoffset := count "OFFSET " (by decide) attributes.offset
  exact ((((((hfrom.append hjoined).append hwhere).append hgroupBy).append hhavingClause).append
    horderBy).append hlimit).append hoffset

end Style.Unmarked

/-! ## Nodes -/

namespace Node

variable {style : Style}

/-- A branch starts with its keyword, so that it can stand after another. -/
theorem branch_starts (branch : Branch) :
    Ensures (fun document ↦ startsWithDigit document = false) (document style branch) := by
  cases branch with
  | branch test result =>
    rw [document]
    exact .of_next fun test ↦ .of_next fun result ↦ .pure rfl

theorem branches_start : ∀ branches : Node (.many .branch),
    Ensures (fun documents ↦ ∀ document ∈ documents, startsWithDigit document = false)
      (document style branches)
  | nil => .pure nofun
  | cons first rest => by
    rw [document]
    refine (branch_starts first).bind fun first hfirst ↦ ?_
    refine (branches_start rest).bind fun rest hrest ↦ .pure ?_
    exact List.forall_mem_cons.mpr ⟨hfirst, hrest⟩

theorem document_legible (h : style.Unmarked) {kind : Kind} (node : Node kind)
    (hobeys : node.Obeys unmarked) : Ensures (kind.All Legible) (document style node) := by
  have hoperator : ∀ op : Operator, Text.Unmarked (op.sql ++ " ") := fun op ↦ by
    cases op <;> decide
  induction node with
  | name path => exact .pure (.fixed (h.identifier hobeys))
  | verbatim sql | raw sql => exact .pure (.fixed hobeys)
  | computed value ih | inline value ih | standalone value ih | single _ value ih
    | conditionTest value ih => exact ih hobeys
  | subquery query ih =>
    rw [document]
    exact (ih hobeys).bind fun query hquery ↦ .pure (Legible.enclosed hquery)
  | literal value => exact .pure (.literal value)
  | compareValue op value =>
    rw [document]
    split
    · exact .throw _
    · exact .pure (.lead (hoperator op) (.literal value))
  | compareList op values => exact comparedList_legible op values
  | compareField op field ih =>
    rw [document]
    split
    · exact (ih hobeys).bind fun field hfield ↦ .pure (.lead (hoperator op) hfield)
    · exact .throw _
  | compareExpr op value ih =>
    rw [document]
    split
    · exact .throw _
    · exact (ih hobeys).bind fun value hvalue ↦ .pure (.lead (hoperator op) hvalue)
  | nullTest negated => exact .pure (.fixed (by cases negated <;> decide))
  | existsTest query negated ih =>
    rw [document]
    refine (ih hobeys).bind fun query hquery ↦ .pure ?_
    exact .lead (by cases negated <;> decide) (Legible.enclosed hquery)
  | caseWhen first rest otherwise ihFirst ihRest ihOtherwise =>
    obtain ⟨hfirst, hrest, hotherwise⟩ := hobeys
    rw [document]
    refine (ihFirst hfirst).bind fun first hfirst ↦ ?_
    refine ((ihRest hrest).and (branches_start rest)).bind fun rest hrest ↦ ?_
    refine (ihOtherwise hotherwise).bind fun otherwise hotherwise ↦ .pure ?_
    have hbranches : Trails rest.flatten :=
      .flatten fun document hdocument ↦ ⟨hrest.1 document hdocument, hrest.2 document hdocument⟩
    have helse : Trails (otherwise.elim [] (fixed " ELSE " ++ ·)) := by
      cases otherwise with
      | none => exact .nil
      | some result => exact .lead (by decide) (hotherwise result rfl)
    have hstart : Legible (fixed "(CASE" ++ first) := .lead (by decide) hfirst
    exact ((hstart.append hbranches).append helse).append (.fixed (by decide))
  | coalesce arguments ih =>
    rw [document]
    split
    · exact .throw _
    · refine (ih hobeys).bind fun arguments harguments ↦ .pure ?_
      exact .lead (by decide) (Legible.separated (by decide) harguments).enclosed
  | jsonObject members ih =>
    rw [document]
    refine (ih hobeys).bind fun members hmembers ↦ .pure ?_
    exact .lead h.jsonObjectFunction (Legible.separated (by decide) hmembers).enclosed
  | jsonArray element ih =>
    rw [document]
    refine (ih hobeys).bind fun element helement ↦ .pure ?_
    exact .lead h.jsonArrayFunction (Legible.enclosed helement)
  | paired field assertion ihField ihAssertion =>
    rw [document]
    refine (ihField hobeys.1).bind fun left hleft ↦ ?_
    refine (ihAssertion hobeys.2).bind fun right hright ↦ .pure ?_
    have hoperand : Legible (if field.isComputed then Reference.enclosed left else left) := by
      split
      · exact Legible.enclosed hleft
      · exact hleft
    exact (hoperand.between (by decide) hright).enclosed
  | nested conjunction entries ih =>
    rw [document]
    refine (ih hobeys).bind fun documents hdocuments ↦ .pure ?_
    have hgroup := h.group entries.conjunctions hdocuments
    cases hresult : Reference.group style (entries.conjunctions.zip documents) with
    | none => exact .nil
    | some document => exact (hgroup document hresult).enclosed
  | compareTest field assertion ihField ihAssertion =>
    rw [document]
    refine (ihField hobeys.1).bind fun left hleft ↦ ?_
    refine (ihAssertion hobeys.2).bind fun right hright ↦ .pure ?_
    exact Legible.between hleft (by decide) hright
  | groupTest entries ih =>
    rw [document]
    refine (ih hobeys).bind fun documents hdocuments ↦ ?_
    have hgroup := h.group entries.conjunctions hdocuments
    cases hresult : Reference.group style (entries.conjunctions.zip documents) with
    | none => exact .throw _
    | some document => exact .pure (hgroup document hresult)
  | branch test result ihTest ihResult =>
    rw [document]
    refine (ihTest hobeys.1).bind fun test htest ↦ ?_
    refine (ihResult hobeys.2).bind fun result hresult ↦ .pure ?_
    exact (Legible.lead (by decide) htest).between (by decide) hresult
  | member key value ih =>
    rw [document]
    refine (ih hobeys.2).bind fun value hvalue ↦ .pure ?_
    have hkey : Legible (fixed (Text.quoted key)) := .fixed (.quoted hobeys.1)
    exact hkey.between (by decide) hvalue
  | column field label ih =>
    rw [document]
    exact (ih hobeys.1).bind fun field hfield ↦ .pure (h.labelled hfield hobeys.2)
  | namedTable table label =>
    exact .pure (h.labelled (.fixed (h.identifier hobeys.1)) hobeys.2)
  | derivedTable query label ih =>
    rw [document]
    refine (ih hobeys.1).bind fun query hquery ↦ .pure ?_
    refine h.labelled (Legible.enclosed hquery) ?_
    rintro given ⟨⟩
    exact hobeys.2
  | join kind table condition ih =>
    rw [document]
    refine (ih hobeys.1).bind fun table htable ↦ .pure ?_
    have hjoined : Legible (Reference.joined kind ++ table) := by
      cases kind with
      | none => exact .lead (by decide) htable
      | some kind => exact .lead (by cases kind <;> decide) htable
    exact hjoined.append (.fixed (.append (by decide) hobeys.2))
  | ordering field direction ih =>
    rw [document]
    refine (ih hobeys).bind fun field hfield ↦ .pure ?_
    exact Legible.append hfield (.fixed (by cases direction <;> decide))
  | select columns source joins filter groupKeys having orderings attributes ihColumns ihSource
      ihJoins ihFilter ihGroupKeys ihHaving ihOrderings =>
    obtain ⟨hcolumns, hsource, hjoins, hfilter, hgroupKeys, hhaving, horderings, hhead⟩ := hobeys
    cases source with
    | absent => exact .throw _
    | present source =>
      have hsource := ensures_of_present (ihSource hsource)
      rw [document]
      refine (h.head hhead (ihColumns hcolumns)).bind fun head hhead ↦ ?_
      refine hsource.bind fun source hsource ↦ ?_
      refine (ihJoins hjoins).bind fun joins hjoins ↦ ?_
      refine (ihFilter hfilter).bind fun filterDocuments hfilterDocuments ↦ ?_
      refine (ihGroupKeys hgroupKeys).bind fun groupKeys hgroupKeys ↦ ?_
      refine (ihHaving hhaving).bind fun havingDocuments hhavingDocuments ↦ ?_
      refine (ihOrderings horderings).bind fun orderings horderings ↦ .pure ?_
      exact h.statement attributes hhead hsource hjoins
        (h.group filter.conjunctions hfilterDocuments) hgroupKeys
        (h.group having.conjunctions hhavingDocuments) horderings
  | nil => exact .pure (List.forall_mem_nil _)
  | cons first rest ihFirst ihRest =>
    rw [document]
    refine (ihFirst hobeys.1).bind fun first hfirst ↦ ?_
    refine (ihRest hobeys.2).bind fun rest hrest ↦ .pure ?_
    exact List.forall_mem_cons.mpr ⟨hfirst, hrest⟩
  | absent => exact .pure (by rintro _ ⟨⟩)
  | present node ih =>
    rw [document]
    refine (ih hobeys).bind fun document hdocument ↦ .pure ?_
    rintro _ ⟨⟩
    exact hdocument

end Node

namespace Part

theorem document_legible {style : Style} (h : style.Unmarked) (part : Part)
    (hobeys : part.Obeys unmarked) :
    Ensures ((Kind.maybe .entry).All Legible) (part.document style) := by
  have hone : ∀ document : Document, Legible document →
      (Kind.maybe .entry).All Legible (some document) := by
    rintro document hdocument _ ⟨⟩
    exact hdocument
  cases part with
  | piece piece =>
    cases piece with
    | node one => exact (Node.document_legible h one hobeys).map hone
    | columns items =>
      have hitems := Node.document_legible h items hobeys
      exact (hitems.map fun _ hdocuments ↦ h.columns hdocuments).map hone
    | groupKeys items =>
      have hitems := Node.document_legible h items hobeys
      exact (hitems.map fun _ hdocuments ↦ commaSeparated_legible hdocuments).map hone
    | orderings items =>
      have hitems := Node.document_legible h items hobeys
      exact (hitems.map fun _ hdocuments ↦ h.lines hdocuments).map hone
  | group entries =>
    have hentries := Node.document_legible h entries hobeys
    exact hentries.map fun _ hdocuments ↦ h.group entries.conjunctions hdocuments

/-- What is rendered is a legible document, which is empty for a group that has no text. -/
theorem exists_legible_document {style : Style} (h : style.Unmarked) {part : Part}
    (hobeys : part.Obeys unmarked) {params after : Params} {text? : Option String}
    (hrender : (part.render style).run params = .ok text? after) :
    ∃ document, Legible document ∧
      text?.getD "" = write params.placeholder params.size document ∧
      after = params.append document.literals := by
  obtain ⟨document?, hdocument, htext, hafter⟩ :=
    ((part.render_delivers style params).eq_ok_iff text? after).mp hrender
  have hlegible := part.document_legible h hobeys document? hdocument
  cases document? with
  | none => exact ⟨[], .nil, by rw [htext]; rfl, hafter⟩
  | some document => exact ⟨document, hlegible document rfl, by rw [htext]; rfl, hafter⟩

/-- Question marks are as many as values were bound, and dollar signs bear the positions of these
values one after the other. -/
theorem placeholders_can_be_read {style : Style} (h : style.Unmarked) {part : Part}
    (hobeys : part.Obeys unmarked) {params after : Params} {text? : Option String}
    (hrender : (part.render style).run params = .ok text? after) {count : Nat}
    (hcount : after.size = params.size + count) :
    let cs := (text?.getD "").toList
    (params.placeholder = .questionMark → cs.count '?' = count ∧ '$' ∉ cs) ∧
      (params.placeholder = .dollarNumbered →
        '?' ∉ cs ∧ cs.count '$' = count ∧
          Text.dollarNumbers cs = (List.range' (params.size + 1) count).map fun position ↦
            (toString position).toList) := by
  intro cs
  obtain ⟨document, hlegible, htext, rfl⟩ := exists_legible_document h hobeys hrender
  obtain rfl : count = document.literals.length := by
    rw [Params.size_append] at hcount
    omega
  have hcs : cs = (write params.placeholder params.size document).toList :=
    congrArg String.toList htext
  constructor
  · intro hplaceholder
    rw [hcs, hplaceholder]
    have hdollar := not_mem_write .questionMark (.inr rfl) (fun _ ↦ by
      rw [Placeholder.token]
      decide) hlegible params.size
    exact ⟨count_questionMark_write hlegible _, hdollar⟩
  · intro hplaceholder
    rw [hcs, hplaceholder]
    have hquestion := not_mem_write .dollarNumbered (.inl rfl) (fun position ↦ by
      rw [Placeholder.token, String.toList_append, List.mem_append, not_or]
      exact ⟨by decide, (Text.unmarked_of_isDigit fun _ ↦ Text.isDigit_of_mem_toString).1⟩)
      hlegible params.size
    have hnumbers := dollarNumbers_write hlegible params.size
    refine ⟨hquestion, ?_, hnumbers⟩
    rw [← Text.length_dollarNumbers, hnumbers, List.length_map, List.length_range']

/-- The ninth and the tenth parameter, next to a LIMIT and to a name that ends with digits. -/
theorem placeholders_can_be_read_after_eight :
    let entries : Group := .cons (.single .and (.paired (.name "a1")
      (.compareList .between [.int 3, .bool true]))) .nil
    let query : Select := .select .nil (.present (.namedTable "t" none)) .nil entries .nil .nil .nil
      { limit := some 10 }
    let params := (Params.empty .dollarNumbered).append (List.replicate 8 .null)
    let text := "SELECT\n  *\nFROM\n  \x60t\x60\nWHERE\n  (\x60a1\x60 BETWEEN $9 AND $10)\nLIMIT 10"
    ((Part.piece (.node query)).render default).run params =
        .ok (some text) (params.append [.int 3, .bool true]) ∧
      (Part.piece (.node query)).Obeys unmarked ∧
      Text.dollarNumbers text.toList = [['9'], ['1', '0']] := by
  intro entries query params text
  have hrender : ((Part.piece (.node query)).render default).run
      ((Params.empty .dollarNumbered).append (List.replicate 8 .null)) =
      .ok (some text) (params.append [.int 3, .bool true]) := rfl
  have hname : ∀ name ∈ ["t", "a1"], Text.Unmarked name := by decide
  have hnone : ∀ text ∈ (none : Option String), Text.Unmarked text := by rintro _ ⟨⟩
  have hobeys : (Part.piece (.node query)).Obeys unmarked :=
    ⟨trivial, ⟨hname _ (by decide), hnone⟩, trivial, ⟨⟨hname _ (by decide), trivial⟩, trivial⟩,
      trivial, trivial, trivial, hnone⟩
  have hdefault : (default : Style).Unmarked := by
    refine ⟨by decide, ?_, by decide, by decide⟩
    intro quote hquote
    cases hquote
    decide
  have hcount : (params.append [.int 3, .bool true]).size = params.size + 2 := by decide
  obtain ⟨-, -, hnumbers⟩ := (placeholders_can_be_read hdefault hobeys hrender hcount).2 rfl
  exact ⟨hrender, hobeys, hnumbers.trans (by decide)⟩

end Part

end SqlSelect
