import SqlSelect.Proofs.Binding
import SqlSelect.Proofs.Writing

/-!
# Rendering refines the reference

Rendering numbers the placeholders as it goes and puts the texts together
afterwards. It yields the document of the reference all the same: what is bound
is the literals of the document in their order.
-/

namespace SqlSelect

open Document

namespace Kind

/-- Writes what a node of the kind yields, from left to right. -/
def write (placeholder : Placeholder) (bound : Nat) :
    (kind : Kind) → kind.Rendered Document → kind.Rendered String
  | .one _, document => Document.write placeholder bound document
  | .many _, documents => writeAll placeholder bound documents
  | .maybe _, document? => document?.map (Document.write placeholder bound)

def literals : (kind : Kind) → kind.Rendered Document → List Value
  | .one _, document => Document.literals document
  | .many _, documents => documents.flatMap Document.literals
  | .maybe _, document? => document?.elim [] Document.literals

variable {placeholder : Placeholder} {bound : Nat} {category : Category}

@[simp] theorem write_one (document : Document) :
    Kind.write placeholder bound (.one category) document =
      Document.write placeholder bound document :=
  rfl

@[simp] theorem write_many (documents : List Document) :
    Kind.write placeholder bound (.many category) documents =
      writeAll placeholder bound documents :=
  rfl

@[simp] theorem write_maybe (document? : Option Document) :
    Kind.write placeholder bound (.maybe category) document? =
      document?.map (Document.write placeholder bound) :=
  rfl

@[simp] theorem literals_one (document : Document) :
    Kind.literals (.one category) document = Document.literals document :=
  rfl

@[simp] theorem literals_many (documents : List Document) :
    Kind.literals (.many category) documents = documents.flatMap Document.literals :=
  rfl

@[simp] theorem literals_maybe (document? : Option Document) :
    Kind.literals (.maybe category) document? = document?.elim [] Document.literals :=
  rfl

end Kind

/-- A rendering that may have begun earlier, at `base`, ends as a reference does: with the
reference's document written and its literals bound, or with the reference's error. -/
inductive Delivers (base : Params) (kind : Kind) :
    EStateM.Result BuildError Params (kind.Rendered String) →
    Except BuildError (kind.Rendered Document) → Prop where
  | written {text : kind.Rendered String} {after : Params} {document : kind.Rendered Document}
    (htext : text = kind.write base.placeholder base.size document)
    (hafter : after = base.append (kind.literals document)) :
    Delivers base kind (.ok text after) (.ok document)
  | failed (error : BuildError) (after : Params) :
    Delivers base kind (.error error after) (.error error)

namespace Delivers

variable {base current : Params} {source target : Kind}

/-- What comes next goes on with the parameters that the first rendering leaves. -/
theorem bind {first : Rendering (source.Rendered String)}
    {reference : Except BuildError (source.Rendered Document)}
    {next : source.Rendered String → Rendering (target.Rendered String)}
    {nextReference : source.Rendered Document → Except BuildError (target.Rendered Document)}
    (hfirst : Delivers current source (first current) reference)
    (hnext : ∀ document, reference = .ok document → Delivers base target
      (next (source.write current.placeholder current.size document)
        (current.append (source.literals document)))
      (nextReference document)) :
    Delivers base target ((first >>= next) current) (reference >>= nextReference) := by
  change Delivers base target (EStateM.bind first next current) _
  unfold EStateM.bind
  generalize first current = result at hfirst
  cases hfirst with
  | written htext hafter =>
    subst htext hafter
    exact hnext _ rfl
  | failed error after => exact .failed error after

theorem map {rendering : Rendering (source.Rendered String)}
    {reference : Except BuildError (source.Rendered Document)}
    {layout : source.Rendered String → target.Rendered String}
    {layoutDocument : source.Rendered Document → target.Rendered Document}
    (h : Delivers base source (rendering base) reference)
    (htext : ∀ document, layout (source.write base.placeholder base.size document) =
      target.write base.placeholder base.size (layoutDocument document))
    (hliterals : ∀ document, reference = .ok document →
      target.literals (layoutDocument document) = source.literals document) :
    Delivers base target ((layout <$> rendering) base) (layoutDocument <$> reference) := by
  change Delivers base target (EStateM.map layout rendering base) _
  unfold EStateM.map
  generalize rendering base = result at h
  cases h with
  | written hwritten hafter =>
    refine .written ?_ ?_
    · rw [hwritten, htext]
    · rw [hafter, hliterals _ rfl]
  | failed error after => exact .failed error after

theorem eq_ok_iff {result : EStateM.Result BuildError Params (source.Rendered String)}
    {reference : Except BuildError (source.Rendered Document)}
    (h : Delivers base source result reference) (text : source.Rendered String)
    (after : Params) :
    result = .ok text after ↔
      ∃ document, reference = .ok document ∧
        text = source.write base.placeholder base.size document ∧
        after = base.append (source.literals document) := by
  cases h with
  | written htext hafter =>
    subst htext hafter
    constructor
    · intro h
      cases h
      exact ⟨_, rfl, rfl, rfl⟩
    · rintro ⟨document, hdocument, rfl, rfl⟩
      cases hdocument
      rfl
  | failed error after => simp

theorem eq_error_iff {result : EStateM.Result BuildError Params (source.Rendered String)}
    {reference : Except BuildError (source.Rendered Document)}
    (h : Delivers base source result reference) (error : BuildError) :
    (∃ after, result = .error error after) ↔ reference = .error error := by
  cases h with
  | written htext hafter => simp
  | failed error after => simp

/-- The category says nothing about the text. -/
theorem recast {category other : Category}
    {result : EStateM.Result BuildError Params ((Kind.one category).Rendered String)}
    {reference : Except BuildError Document}
    (h : Delivers base (Kind.one category) result reference) :
    Delivers base (Kind.one other) result reference := by
  cases h with
  | written htext hafter => exact .written htext hafter
  | failed error after => exact .failed error after

/-- An optional node that is there is rendered as the node itself. -/
theorem of_present {category : Category} {rendering : Rendering String}
    {reference : Except BuildError Document}
    (h : Delivers base (Kind.maybe category)
      ((do let text ← rendering; return some text : Rendering (Option String)) current)
      (do let document ← reference; return some document)) :
    Delivers base (Kind.one category) (rendering current) reference := by
  change Delivers base (Kind.maybe category)
    (EStateM.bind rendering (fun text ↦ pure (some text)) current) _ at h
  unfold EStateM.bind at h
  cases reference with
  | error error =>
    cases hresult : rendering current with
    | ok text after =>
      rw [hresult] at h
      nomatch h
    | error failure after =>
      rw [hresult] at h
      cases h
      exact .failed _ _
  | ok document =>
    cases hresult : rendering current with
    | ok text after =>
      rw [hresult] at h
      cases h with
      | written htext hafter => exact .written (Option.some.inj htext) hafter
    | error failure after =>
      rw [hresult] at h
      nomatch h

end Delivers

namespace Node

open Reference

/-- A node is rendered as the reference says, whatever has been bound before. -/
def RendersAs (style : Style) {kind : Kind} (node : Node kind) : Prop :=
  ∀ params, Delivers params kind (render style node params) (document style node)

theorem literals_group_conjunctions {style : Style} {entries : Group} {documents : List Document}
    (h : document style entries = .ok documents) :
    (group style (entries.conjunctions.zip documents)).elim [] literals =
      documents.flatMap literals := by
  calc
    _ = ((entries.conjunctions.zip documents).map Prod.snd).flatMap literals := by
      rw [literals_group, List.flatMap_map]
    _ = _ := by rw [map_snd_zip_conjunctions style entries documents h]

theorem writeAll_literal (placeholder : Placeholder) (bound : Nat) (values : List Value) :
    writeAll placeholder bound (values.map Document.literal) = tokens placeholder bound values := by
  induction values generalizing bound with
  | nil => rfl
  | cons value rest ih => simp [writeAll, tokens, ih]

theorem literals_list (values : List Value) :
    literals (separated "," (values.map Document.literal)) = values := by
  induction values with
  | nil => rfl
  | cons value rest ih => simp_all [literals_separated]

theorem valueList_delivers (op : Operator) (values : List Value) (params : Params) :
    Delivers params (Kind.one .expr)
      ((do let tokens ← bindValues values; return Layout.valueList op tokens : Rendering String)
        params)
      (pure (fixed (op.sql ++ " ") ++ enclosed (separated "," (values.map Document.literal)))) := by
  change Delivers params (Kind.one .expr)
    (EStateM.bind (bindValues values) (fun tokens ↦ pure (Layout.valueList op tokens)) params) _
  unfold EStateM.bind
  rw [bindValues_apply]
  refine .written ?_ ?_
  · simp [Layout.valueList, Layout.comparison, write_separated, writeAll_literal]
  · simp [literals_list]

theorem renderList_delivers (op : Operator) (values : List Value) (params : Params) :
    Delivers params (Kind.one .expr) (renderList op values params) (comparedList op values) := by
  unfold renderList comparedList
  cases op with
  | isIn | notIn =>
    cases values with
    | nil => exact .failed _ _
    | cons value rest => exact valueList_delivers _ (value :: rest) params
  | between =>
    match values with
    | [] | [_] | _ :: _ :: _ :: _ => exact .failed _ _
    | [lower, upper] =>
      simp only [bind, EStateM.bind, bindValue_apply]
      refine .written ?_ ?_
      · simp [Layout.between, String.append_assoc]
      · simp
  | _ => exact .failed _ _

theorem renderHead_delivers (style : Style) (given : Option String)
    {columns : Rendering (List String)} {reference : Except BuildError (List Document)}
    (params : Params)
    (hcolumns : Delivers params (.many .column) (columns params) reference) :
    Delivers params (.one .select) (renderHead style given columns params)
      (Reference.head style given reference) := by
  cases given with
  | some text => exact .written (by simp) (by simp)
  | none =>
    apply hcolumns.bind
    intro documents _
    apply Delivers.written
    · simp [Layout.titled, write_columns]
    · simp [literals_columns]

/-- A statement with a table delivers if its parts do. The numbers in the text follow the order in
which the parts are rendered, which is the order in which they stand. -/
theorem select_delivers {style : Style} {columns : Node (.many .column)} {source : Table}
    {joins : Node (.many .join)} {filter : Group} {groupKeys : Node (.many .field)}
    {having : Group} {orderings : Node (.many .ordering)} {attributes : Attributes}
    (hcolumns : RendersAs style columns) (hsource : RendersAs style source)
    (hjoins : RendersAs style joins) (hfilter : RendersAs style filter)
    (hgroupKeys : RendersAs style groupKeys) (hhaving : RendersAs style having)
    (horderings : RendersAs style orderings) :
    RendersAs style (select columns (present source) joins filter groupKeys having orderings
      attributes) := by
  intro params
  rw [render, document]
  apply (renderHead_delivers style _ params (hcolumns params)).bind
  intro head _
  apply (hsource _).bind
  intro source _
  apply (hjoins _).bind
  intro joins _
  apply (hfilter _).bind
  intro filterDocuments hfilterDocuments
  apply (hgroupKeys _).bind
  intro groupKeys _
  apply (hhaving _).bind
  intro havingDocuments hhavingDocuments
  apply (horderings _).bind
  intro orderings _
  apply Delivers.written
  · simp only [Kind.write_one, Kind.write_many, Kind.literals_one, Kind.literals_many,
      write_statement, Parts.write, write_group, literals_group_conjunctions hfilterDocuments,
      literals_group_conjunctions hhavingDocuments, Params.placeholder_append,
      Params.size_append]
  · simp only [Kind.literals_one, literals_statement, Parts.literals,
      literals_group_conjunctions hfilterDocuments, literals_group_conjunctions hhavingDocuments,
      Kind.literals_many, Params.append_append]

/-- Induction on the tree, for all parameters at once: the parameters that a part starts from are
those that the parts before it leave. -/
theorem render_delivers (style : Style) {kind : Kind} (node : Node kind) :
    RendersAs style node := by
  induction node with
  | name path => exact fun params ↦ .written (by simp) (by simp)
  | verbatim sql => exact fun params ↦ .written (by simp) (by simp)
  | computed value ih => exact fun params ↦ (ih params).recast
  | subquery query ih =>
    intro params
    rw [render, document]
    exact (ih params).bind fun query _ ↦ .written (by simp) (by simp)
  | inline field ih => exact fun params ↦ (ih params).recast
  | literal value =>
    intro params
    rw [render, document, bindValue_apply]
    exact .written (by simp) (by simp)
  | compareValue op value =>
    intro params
    rw [render, document]
    split
    · exact .failed _ _
    · exact .written (by simp [Layout.comparison]) (by simp [Params.push_eq_append])
  | compareList op values => exact renderList_delivers op values
  | compareField op field ih =>
    intro params
    rw [render, document]
    split
    · exact (ih params).bind fun field _ ↦ .written (by simp [Layout.comparison]) (by simp)
    · exact .failed _ _
  | compareExpr op value ih =>
    intro params
    rw [render, document]
    split
    · exact .failed _ _
    · exact (ih params).bind fun value _ ↦ .written (by simp [Layout.comparison]) (by simp)
  | nullTest negated => exact fun params ↦ .written (by simp [Layout.nullTest]) (by simp)
  | existsTest query negated ih =>
    intro params
    rw [render, document]
    exact (ih params).bind fun query _ ↦ .written (by simp [Layout.existsTest]) (by simp)
  | caseWhen first rest otherwise ihFirst ihRest ihOtherwise =>
    intro params
    rw [render, document]
    apply (ihFirst params).bind
    intro first _
    apply (ihRest _).bind
    intro rest _
    apply (ihOtherwise _).bind
    intro otherwise _
    apply Delivers.written
    · cases otherwise <;>
        simp [Layout.caseWhen, write_flatten, literals_flatten, String.append_assoc, Nat.add_assoc]
    · cases otherwise <;> simp [literals_flatten]
  | coalesce arguments ih =>
    intro params
    rw [render, document]
    split
    · exact .failed _ _
    · apply (ih params).bind
      intro arguments _
      apply Delivers.written
      · simp [Layout.call, write_separated]
      · simp [literals_separated]
  | jsonObject members ih =>
    intro params
    rw [render, document]
    apply (ih params).bind
    intro members _
    apply Delivers.written
    · simp [Layout.call, write_separated]
    · simp [literals_separated]
  | jsonArray element ih =>
    intro params
    rw [render, document]
    exact (ih params).bind fun element _ ↦ .written (by simp [Layout.call]) (by simp)
  | raw sql => exact fun params ↦ .written (by simp) (by simp)
  | paired field assertion ihField ihAssertion =>
    intro params
    rw [render, document]
    apply (ihField params).bind
    intro left _
    apply (ihAssertion _).bind
    intro right _
    refine .written ?_ ?_
    · cases field.isComputed <;> simp [Layout.condition, String.append_assoc]
    · cases field.isComputed <;> simp
  | standalone value ih => exact fun params ↦ (ih params).recast
  | single conjunction condition ih => exact fun params ↦ (ih params).recast
  | nested conjunction group ih =>
    intro params
    rw [render, document]
    apply (ih params).bind
    intro documents hdocuments
    apply Delivers.written
    · simp only [Kind.write_many, Kind.write_one, ← write_group]
      cases Reference.group style _ <;> simp [Layout.nestedGroup]
    · have hliterals := literals_group_conjunctions hdocuments
      simp only [Kind.literals_many, Kind.literals_one, ← hliterals]
      cases Reference.group style _ <;> simp
  | compareTest field assertion ihField ihAssertion =>
    intro params
    rw [render, document]
    apply (ihField params).bind
    intro left _
    apply (ihAssertion _).bind
    intro right _
    exact .written (by simp [String.append_assoc]) (by simp)
  | conditionTest condition ih => exact fun params ↦ (ih params).recast
  | groupTest group ih =>
    intro params
    rw [render, document]
    apply (ih params).bind
    intro documents hdocuments
    simp only [Kind.write_many, Kind.literals_many, ← write_group,
      ← literals_group_conjunctions hdocuments]
    cases Reference.group style _ with
    | none => exact .failed _ _
    | some document => exact .written (by simp) (by simp)
  | branch test result ihTest ihResult =>
    intro params
    rw [render, document]
    apply (ihTest params).bind
    intro test _
    apply (ihResult _).bind
    intro result _
    exact .written (by simp [Layout.branch, String.append_assoc]) (by simp)
  | member key value ih =>
    intro params
    rw [render, document]
    apply (ih params).bind
    intro value _
    exact .written (by simp [Layout.member, String.append_assoc]) (by simp)
  | column field label ih =>
    intro params
    rw [render, document]
    exact (ih params).bind fun field _ ↦ .written (by simp) (by simp)
  | namedTable table label => exact fun params ↦ .written (by simp) (by simp)
  | derivedTable query label ih =>
    intro params
    rw [render, document]
    exact (ih params).bind fun query _ ↦ .written (by simp) (by simp)
  | join kind table condition ih =>
    intro params
    rw [render, document]
    apply (ih params).bind
    intro table _
    apply Delivers.written
    · cases kind <;> simp [Layout.join, joined, String.append_assoc]
    · cases kind <;> simp [joined]
  | ordering field direction ih =>
    intro params
    rw [render, document]
    apply (ih params).bind
    intro field _
    exact .written (by simp [Layout.ordering, String.append_assoc]) (by simp)
  | select columns source joins filter groupKeys having orderings attributes ihColumns ihSource
      ihJoins ihFilter ihGroupKeys ihHaving ihOrderings =>
    cases source with
    | absent => exact fun params ↦ .failed _ _
    | present source =>
      exact select_delivers ihColumns (fun params ↦ (ihSource params).of_present) ihJoins ihFilter
        ihGroupKeys ihHaving ihOrderings
  | nil => exact fun params ↦ .written rfl (by simp)
  | cons first rest ihFirst ihRest =>
    intro params
    rw [render, document]
    apply (ihFirst params).bind
    intro first _
    apply (ihRest _).bind
    intro rest _
    exact .written (by simp [writeAll]) (by simp)
  | absent => exact fun params ↦ .written rfl (by simp)
  | present node ih =>
    intro params
    rw [render, document]
    exact (ih params).bind fun node _ ↦ .written (by simp) (by simp)

end Node

open Reference in
theorem Piece.render_delivers (style : Style) (piece : Piece) (params : Params) :
    Delivers params (Kind.one .entry) (piece.render style params) (piece.document style) := by
  cases piece with
  | node one => exact (Node.render_delivers style one params).recast
  | columns items =>
    exact (Node.render_delivers style items params).map
      (fun _ ↦ (write_columns style _).symm) (fun _ _ ↦ literals_columns style _)
  | groupKeys items =>
    exact (Node.render_delivers style items params).map
      (fun _ ↦ (write_separated _ _).symm) (fun _ _ ↦ literals_separated _ _)
  | orderings items =>
    exact (Node.render_delivers style items params).map
      (fun _ ↦ (write_lines style _).symm) (fun _ _ ↦ literals_lines style _)

theorem Group.render_delivers (style : Style) (group : Group) (params : Params) :
    Delivers params (Kind.maybe .entry) (Group.render style group params)
      (Group.document style group) :=
  (Node.render_delivers style group params).map
    (fun _ ↦ (Reference.write_group style _ _).symm)
    (fun _ hdocuments ↦ Node.literals_group_conjunctions hdocuments)

namespace Part

theorem render_delivers (style : Style) (part : Part) (params : Params) :
    Delivers params (Kind.maybe .entry) (part.render style params) (part.document style) := by
  cases part with
  | piece piece =>
    exact (Piece.render_delivers style piece params).map (fun _ ↦ rfl) (fun _ _ ↦ rfl)
  | group group => exact Group.render_delivers style group params

/-- Rendering a part yields what the reference does, whatever has been bound before: the text is
the document written from there on, with a question mark or a dollar and the position for each
literal, and what is bound is its literals in their order, truth values as the integers 0 and 1 and
all others as they are. -/
theorem render_refines_document (style : Style) (part : Part) (params : Params) :
    (∀ text after, (part.render style).run params = .ok text after ↔
      ∃ document, part.document style = .ok document ∧
        text = document.map (write params.placeholder params.size) ∧
        params.Binds (document.elim [] literals) after) ∧
    (∀ error, (∃ after, (part.render style).run params = .error error after) ↔
      part.document style = .error error) ∧
    ∀ position : Nat, Placeholder.questionMark.token position = "?" ∧
      Placeholder.dollarNumbered.token position = "$" ++ toString position := by
  have hdelivers := render_delivers style part params
  refine ⟨?_, hdelivers.eq_error_iff, fun position ↦ ⟨rfl, rfl⟩⟩
  intro text after
  simp only [Params.binds_iff]
  exact hdelivers.eq_ok_iff text after

end Part

end SqlSelect
