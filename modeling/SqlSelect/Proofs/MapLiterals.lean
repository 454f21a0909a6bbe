import SqlSelect.Node.Agreement
import SqlSelect.Proofs.Literals

/-!
# Changing the literals

A change of the literals of a tree changes the literals of its document and of its
visit in the same way, and nothing else. Nodes of the same shape are the same node
once all literals are made equal.
-/

namespace SqlSelect

open Document

namespace Document

def Chunk.mapLiterals (change : Value → Value) : Chunk → Chunk
  | .fixed text => .fixed text
  | .literal value => .literal (change value)

def mapLiterals (change : Value → Value) (document : Document) : Document :=
  document.map (Chunk.mapLiterals change)

variable (change : Value → Value)

@[simp] theorem mapLiterals_nil : mapLiterals change [] = [] :=
  rfl

@[simp] theorem mapLiterals_fixed (text : String) : mapLiterals change (fixed text) = fixed text :=
  rfl

@[simp] theorem mapLiterals_literal (value : Value) :
    mapLiterals change (literal value) = literal (change value) :=
  rfl

@[simp] theorem mapLiterals_append (first second : Document) :
    mapLiterals change (first ++ second) =
      mapLiterals change first ++ mapLiterals change second :=
  List.map_append

@[simp] theorem isBlank_mapLiterals (document : Document) :
    isBlank (mapLiterals change document) = isBlank document := by
  induction document with
  | nil => rfl
  | cons chunk rest ih =>
    cases chunk with
    | fixed text => exact congrArg (text.isEmpty && ·) ih
    | literal value => rfl

@[simp] theorem length_literals_mapLiterals (document : Document) :
    (literals (mapLiterals change document)).length = (literals document).length := by
  induction document with
  | nil => rfl
  | cons chunk rest ih =>
    cases chunk with
    | fixed text => exact ih
    | literal value => exact congrArg (· + 1) ih

/-- What is written does not depend on the literals. -/
@[simp] theorem write_mapLiterals (placeholder : Placeholder) (bound : Nat) (document : Document) :
    write placeholder bound (mapLiterals change document) = write placeholder bound document := by
  induction document generalizing bound with
  | nil => rfl
  | cons chunk rest ih =>
    cases chunk with
    | fixed text => exact congrArg (text ++ ·) (ih bound)
    | literal value => exact congrArg (placeholder.token (bound + 1) ++ ·) (ih (bound + 1))

@[simp] theorem writeAll_mapLiterals (placeholder : Placeholder) (bound : Nat)
    (documents : List Document) :
    writeAll placeholder bound (documents.map (mapLiterals change)) =
      writeAll placeholder bound documents := by
  induction documents generalizing bound with
  | nil => rfl
  | cons first rest ih => simp [writeAll, ih]

@[simp] theorem mapLiterals_separated (separator : String) (documents : List Document) :
    mapLiterals change (separated separator documents) =
      separated separator (documents.map (mapLiterals change)) := by
  induction documents with
  | nil => rfl
  | cons first rest ih =>
    cases rest with
    | nil => simp
    | cons second rest => simp_all

@[simp] theorem mapLiterals_flatten (documents : List Document) :
    mapLiterals change documents.flatten = (documents.map (mapLiterals change)).flatten := by
  induction documents with
  | nil => rfl
  | cons first rest ih => simp [ih]

end Document

/-- A failure has no document that a change could reach. -/
theorem map_throw {ε α β : Type} (change : α → β) (error : ε) :
    change <$> (throw error : Except ε α) = throw error :=
  rfl

namespace Reference

variable (change : Value → Value) (style : Style)

@[simp] theorem mapLiterals_enclosed (document : Document) :
    (enclosed document).mapLiterals change = enclosed (document.mapLiterals change) := by
  simp [enclosed]

@[simp] theorem mapLiterals_labelled (document : Document) (label : Option String) :
    (labelled style document label).mapLiterals change =
      labelled style (document.mapLiterals change) label := by
  cases label <;> simp [labelled]

@[simp] theorem mapLiterals_indented (document : Document) :
    (indented style document).mapLiterals change =
      indented style (document.mapLiterals change) := by
  simp [indented]

@[simp] theorem mapLiterals_joined (kind : Option JoinKind) :
    (joined kind).mapLiterals change = joined kind := by
  cases kind <;> simp [joined]

@[simp] theorem mapLiterals_count (keyword : String) (number : Option Nat) :
    (count keyword number).mapLiterals change = count keyword number := by
  cases number <;> simp [count]

@[simp] theorem mapLiterals_clause (keyword : String) (body : Option Document) :
    (clause keyword body).mapLiterals change =
      clause keyword (body.map (Document.mapLiterals change)) := by
  cases body <;> simp [clause]

@[simp] theorem mapLiterals_lines (items : List Document) :
    (lines style items).mapLiterals change =
      lines style (items.map (Document.mapLiterals change)) := by
  simp [lines, Function.comp_def]

@[simp] theorem mapLiterals_columns (items : List Document) :
    (columns style items).mapLiterals change =
      columns style (items.map (Document.mapLiterals change)) := by
  cases items with
  | nil => rfl
  | cons first rest => exact mapLiterals_lines change style _

theorem mapLiterals_joins (joins : List Document) :
    Document.mapLiterals change (joins.flatMap (fixed "\n" ++ ·)) =
      (joins.map (Document.mapLiterals change)).flatMap (fixed "\n" ++ ·) := by
  simp [List.flatMap_def, Function.comp_def]

/-- Whether an entry is blank does not depend on its literals, so the same entries are left. -/
theorem map_group (entries : List (Conjunction × Document)) :
    group style (entries.map (Prod.map id (Document.mapLiterals change))) =
      (group style entries).map (Document.mapLiterals change) := by
  have hcontinuation : ∀ kept : List (Conjunction × Document),
      continuation style (kept.map (Prod.map id (Document.mapLiterals change))) =
        (continuation style kept).mapLiterals change := by
    intro kept
    induction kept with
    | nil => rfl
    | cons entry kept ih => simp [continuation_cons, ih]
  have hfilter : (entries.map (Prod.map id (Document.mapLiterals change))).filter
        (fun entry ↦ !isBlank entry.2) =
      (entries.filter fun entry ↦ !isBlank entry.2).map
        (Prod.map id (Document.mapLiterals change)) := by
    simp [List.filter_map, Function.comp_def]
  unfold group
  rw [hfilter]
  cases entries.filter fun entry ↦ !isBlank entry.2 with
  | nil => rfl
  | cons first rest => simp [hcontinuation]

theorem mapLiterals_listed {layout : List Document → Document}
    (hlayout : ∀ items, (layout items).mapLiterals change =
      layout (items.map (Document.mapLiterals change)))
    (items : List Document) :
    (listed layout items).map (Document.mapLiterals change) =
      listed layout (items.map (Document.mapLiterals change)) := by
  cases items <;> simp [listed, hlayout]

def Parts.mapLiterals (parts : Parts) : Parts where
  head := parts.head.mapLiterals change
  source := parts.source.mapLiterals change
  joins := parts.joins.map (Document.mapLiterals change)
  filter := parts.filter.map (Document.mapLiterals change)
  groupKeys := parts.groupKeys.map (Document.mapLiterals change)
  having := parts.having.map (Document.mapLiterals change)
  orderings := parts.orderings.map (Document.mapLiterals change)

theorem mapLiterals_statement (parts : Parts) (attributes : Attributes) :
    (statement style parts attributes).mapLiterals change =
      statement style (parts.mapLiterals change) attributes := by
  have hkeys : ∀ keys : List Document,
      (indented style (separated "," keys)).mapLiterals change =
        indented style (separated "," (keys.map (Document.mapLiterals change))) := by
    simp
  simp [statement, Parts.mapLiterals, mapLiterals_joins, mapLiterals_listed change hkeys,
    mapLiterals_listed change (mapLiterals_lines change style), Function.comp_def]

theorem mapLiterals_comparedList (op : Operator) (values : List Value) :
    comparedList op (values.map change) =
      Document.mapLiterals change <$> comparedList op values := by
  have hlist : ∀ values : List Value, (values.map change).map Document.literal =
      (values.map Document.literal).map (Document.mapLiterals change) := by
    simp [Function.comp_def]
  unfold comparedList
  cases op with
  | isIn | notIn =>
    cases values with
    | nil => rfl
    | cons value rest => simp [← hlist]
  | between =>
    match values with
    | [] | [_] => rfl
    | _ :: _ :: _ :: _ => simp [map_throw]
    | [lower, upper] => simp
  | _ => rfl

end Reference

namespace Kind

def mapLiterals (change : Value → Value) :
    (kind : Kind) → kind.Rendered Document → kind.Rendered Document
  | .one _, document => document.mapLiterals change
  | .many _, documents => documents.map (Document.mapLiterals change)
  | .maybe _, document? => document?.map (Document.mapLiterals change)

end Kind

namespace Visit

def mapLiterals (change : Value → Value) (visit : Visit) : Visit :=
  visit.map fun
    | .literal value => .literal (change value)
    | .fault error => .fault error

variable (change : Value → Value)

@[simp] theorem mapLiterals_append (first second : Visit) :
    mapLiterals change (first ++ second) =
      mapLiterals change first ++ mapLiterals change second :=
  List.map_append

theorem mapLiterals_ofValues (values : List Value) :
    mapLiterals change (ofValues values) = ofValues (values.map change) := by
  simp [mapLiterals, ofValues, Function.comp_def]

theorem bound_mapLiterals (visit : Visit) :
    bound (mapLiterals change visit) = (bound visit).map change := by
  induction visit with
  | nil => rfl
  | cons event rest ih =>
    cases event with
    | literal value => exact congrArg (change value :: ·) ih
    | fault error => rfl

end Visit

namespace Node

/-- The same tree with its literals changed. -/
def mapLiterals (change : Value → Value) : {kind : Kind} → Node kind → Node kind
  | _, name path => name path
  | _, verbatim sql => verbatim sql
  | _, computed value => computed (mapLiterals change value)
  | _, subquery query => subquery (mapLiterals change query)
  | _, inline field => inline (mapLiterals change field)
  | _, literal value => literal (change value)
  | _, compareValue op value => compareValue op (change value)
  | _, compareList op values => compareList op (values.map change)
  | _, compareField op field => compareField op (mapLiterals change field)
  | _, compareExpr op value => compareExpr op (mapLiterals change value)
  | _, nullTest negated => nullTest negated
  | _, existsTest query negated => existsTest (mapLiterals change query) negated
  | _, caseWhen first rest otherwise =>
    caseWhen (mapLiterals change first) (mapLiterals change rest) (mapLiterals change otherwise)
  | _, coalesce arguments => coalesce (mapLiterals change arguments)
  | _, jsonObject members => jsonObject (mapLiterals change members)
  | _, jsonArray element => jsonArray (mapLiterals change element)
  | _, raw sql => raw sql
  | _, paired field assertion =>
    paired (mapLiterals change field) (mapLiterals change assertion)
  | _, standalone value => standalone (mapLiterals change value)
  | _, single conjunction condition => single conjunction (mapLiterals change condition)
  | _, nested conjunction group => nested conjunction (mapLiterals change group)
  | _, compareTest field assertion =>
    compareTest (mapLiterals change field) (mapLiterals change assertion)
  | _, conditionTest condition => conditionTest (mapLiterals change condition)
  | _, groupTest group => groupTest (mapLiterals change group)
  | _, branch test result => branch (mapLiterals change test) (mapLiterals change result)
  | _, member key value => member key (mapLiterals change value)
  | _, column field label => column (mapLiterals change field) label
  | _, namedTable table label => namedTable table label
  | _, derivedTable query label => derivedTable (mapLiterals change query) label
  | _, join kind table condition => join kind (mapLiterals change table) condition
  | _, ordering field direction => ordering (mapLiterals change field) direction
  | _, select columns source joins filter groupKeys having orderings attributes =>
    select (mapLiterals change columns) (mapLiterals change source) (mapLiterals change joins)
      (mapLiterals change filter) (mapLiterals change groupKeys) (mapLiterals change having)
      (mapLiterals change orderings) attributes
  | _, nil => nil
  | _, cons first rest => cons (mapLiterals change first) (mapLiterals change rest)
  | _, absent => absent
  | _, present node => present (mapLiterals change node)

variable (change : Value → Value)

theorem toList_mapLiterals {category : Category} : ∀ nodes : Node (.many category),
    (mapLiterals change nodes).toList = nodes.toList.map (mapLiterals change)
  | nil => rfl
  | cons first rest => congrArg (mapLiterals change first :: ·) (toList_mapLiterals rest)

theorem conjunctions_mapLiterals (entries : Group) :
    conjunctions (mapLiterals change entries) = conjunctions entries := by
  have hentry : ∀ entry : Node (.one .entry),
      conjunction (mapLiterals change entry) = conjunction entry
    | single _ _ | nested _ _ => rfl
  simp [conjunctions, toList_mapLiterals, hentry]

@[simp] theorem isEmpty_mapLiterals {category : Category} (nodes : Node (.many category)) :
    (mapLiterals change nodes).isEmpty = nodes.isEmpty := by
  simp [isEmpty, toList_mapLiterals]

theorem vanishes_mapLiterals {kind : Kind} (node : Node kind) :
    vanishes (mapLiterals change node) = vanishes node := by
  induction node with
  | standalone _ ih | single _ _ ih | nested _ _ ih => exact ih
  | cons _ _ ihFirst ihRest => simp only [mapLiterals, vanishes, ihFirst, ihRest]
  | _ => rfl

@[simp] theorem isComputed_mapLiterals (field : Field) :
    (mapLiterals change field).isComputed = field.isComputed := by
  cases field <;> rfl

@[simp] theorem fieldAllowed_mapLiterals (op : Operator) (field : Field) :
    fieldAllowed op (mapLiterals change field) = fieldAllowed op field := by
  cases field <;> rfl

theorem group_mapLiterals (style : Style) (entries : Group) (documents : List Document) :
    Reference.group style ((mapLiterals change entries).conjunctions.zip
        (documents.map (Document.mapLiterals change))) =
      (Reference.group style (entries.conjunctions.zip documents)).map
        (Document.mapLiterals change) := by
  rw [conjunctions_mapLiterals, List.zip_map_right, Reference.map_group]

theorem head_mapLiterals (style : Style) (given : Option String)
    (columns : Except BuildError (List Document)) :
    Reference.head style given ((Kind.many .column).mapLiterals change <$> columns) =
      Document.mapLiterals change <$> Reference.head style given columns := by
  cases given <;> simp [Reference.head, Kind.mapLiterals]

/-- What holds of a node that is present holds of the node. -/
theorem document_mapLiterals_of_present {style : Style} {category : Category}
    {node : Node (.one category)}
    (h : document style (mapLiterals change (present node)) =
      (Kind.maybe category).mapLiterals change <$> document style (present node)) :
    document style (mapLiterals change node) =
      Document.mapLiterals change <$> document style node := by
  apply map_some_injective
  rw [← document_present]
  refine Eq.trans h ?_
  rw [document_present, Functor.map_map, Functor.map_map]
  rfl

theorem document_mapLiterals (style : Style) {kind : Kind} (node : Node kind) :
    document style (mapLiterals change node) =
      kind.mapLiterals change <$> document style node := by
  induction node with
  | name path | verbatim sql | nullTest negated | raw sql | namedTable table label =>
    simp [mapLiterals, document, Kind.mapLiterals]
  | literal value => rfl
  | compareList op values => exact Reference.mapLiterals_comparedList change op values
  | compareValue op value =>
    rw [mapLiterals, document, document]
    split
    · rfl
    · simp [Kind.mapLiterals]
  | compareField op field ih =>
    rw [mapLiterals, document, document, fieldAllowed_mapLiterals]
    split
    · simp [ih, Kind.mapLiterals]
    · rfl
  | compareExpr op value ih =>
    rw [mapLiterals, document, document]
    split
    · rfl
    · simp [ih, Kind.mapLiterals]
  | coalesce arguments ih =>
    rw [mapLiterals, document, document, isEmpty_mapLiterals]
    split
    · rfl
    · simp [ih, Kind.mapLiterals]
  | computed value ih | inline value ih | standalone value ih | single _ value ih
    | conditionTest value ih => exact ih
  | subquery query ih | existsTest query negated ih | jsonObject query ih | jsonArray query ih
    | member _ query ih | column query _ ih | derivedTable query _ ih | join _ query _ ih
    | ordering query _ ih | present query ih =>
    simp [mapLiterals, document, ih, Kind.mapLiterals]
  | paired left right ihLeft ihRight =>
    cases h : left.isComputed <;>
      simp [mapLiterals, document, ihLeft, ihRight, Kind.mapLiterals, h]
  | compareTest left right ihLeft ihRight
    | branch left right ihLeft ihRight | cons left right ihLeft ihRight =>
    simp [mapLiterals, document, ihLeft, ihRight, Kind.mapLiterals]
  | caseWhen first rest otherwise ihFirst ihRest ihOtherwise =>
    have helse : ∀ otherwise : Option Document,
        Document.mapLiterals change (otherwise.elim [] (fixed " ELSE " ++ ·)) =
          (otherwise.map (Document.mapLiterals change)).elim [] (fixed " ELSE " ++ ·) := by
      intro otherwise
      cases otherwise <;> simp
    simp [mapLiterals, document, ihFirst, ihRest, ihOtherwise, Kind.mapLiterals, helse]
  | nested conjunction entries ih =>
    have hentries : ∀ entries : Option Document,
        Document.mapLiterals change (entries.elim [] Reference.enclosed) =
          (entries.map (Document.mapLiterals change)).elim [] Reference.enclosed := by
      intro entries
      cases entries <;> simp
    simp [mapLiterals, document, ih, Kind.mapLiterals, group_mapLiterals, hentries]
  | groupTest entries ih =>
    simp only [mapLiterals, document, ih, Kind.mapLiterals, map_bind, bind_map_left,
      group_mapLiterals]
    refine bind_congr fun documents ↦ ?_
    cases Reference.group style (entries.conjunctions.zip documents) <;> rfl
  | select columns source joins filter groupKeys having orderings attributes ihColumns ihSource
      ihJoins ihFilter ihGroupKeys ihHaving ihOrderings =>
    cases source with
    | absent => rfl
    | present source =>
      have hsource := document_mapLiterals_of_present change ihSource
      have hcolumns := head_mapLiterals change style attributes.head (document style columns)
      have hstatement := Reference.mapLiterals_statement change style
      rw [mapLiterals, mapLiterals, document, document, ihColumns, hcolumns, hsource]
      simp [ihJoins, ihFilter, ihGroupKeys, ihHaving, ihOrderings, Kind.mapLiterals, hstatement,
        group_mapLiterals, Reference.Parts.mapLiterals]
  | nil | absent => rfl

/-! ## Visiting -/

theorem visitList_mapLiterals (op : Operator) (values : List Value) :
    visitList op (values.map change) = (visitList op values).mapLiterals change := by
  unfold visitList
  cases op with
  | isIn | notIn =>
    cases values with
    | nil => rfl
    | cons value rest => exact (Visit.mapLiterals_ofValues change _).symm
  | between =>
    match values with
    | [] | [_] | [_, _] => rfl
    | _ :: _ :: _ :: _ => simp [Visit.mapLiterals]
  | _ => rfl

/-- A change of the literals adds no fault and takes none away. -/
theorem visit_mapLiterals {kind : Kind} (node : Node kind) :
    visit (mapLiterals change node) = (visit node).mapLiterals change := by
  induction node with
  | name _ | verbatim _ | nullTest _ | raw _ | namedTable _ _ | nil | absent | literal _ => rfl
  | computed _ ih | subquery _ ih | inline _ ih | existsTest _ _ ih | jsonObject _ ih
    | jsonArray _ ih | standalone _ ih | single _ _ ih | nested _ _ ih | conditionTest _ ih
    | member _ _ ih | column _ _ ih | derivedTable _ _ ih | join _ _ _ ih | ordering _ _ ih
    | present _ ih => exact ih
  | compareValue op value =>
    rw [mapLiterals, visit, visit]
    split <;> rfl
  | compareList op values => exact visitList_mapLiterals change op values
  | compareField op field ih =>
    rw [mapLiterals, visit, visit, fieldAllowed_mapLiterals]
    split
    · exact ih
    · rfl
  | compareExpr op value ih =>
    rw [mapLiterals, visit, visit]
    split
    · rfl
    · exact ih
  | coalesce arguments ih =>
    rw [mapLiterals, visit, visit, isEmpty_mapLiterals]
    split
    · rfl
    · exact ih
  | caseWhen _ _ _ ihFirst ihRest ihOtherwise =>
    simp only [mapLiterals, visit, ihFirst, ihRest, ihOtherwise, Visit.mapLiterals_append]
  | paired _ _ ihLeft ihRight | compareTest _ _ ihLeft ihRight | branch _ _ ihLeft ihRight
    | cons _ _ ihLeft ihRight =>
    simp only [mapLiterals, visit, ihLeft, ihRight, Visit.mapLiterals_append]
  | groupTest group ih =>
    rw [mapLiterals, visit, visit, ih, vanishes_mapLiterals, Visit.mapLiterals_append]
    split <;> rfl
  | select columns source joins filter groupKeys having orderings attributes ihColumns ihSource
      ihJoins ihFilter ihGroupKeys ihHaving ihOrderings =>
    cases source with
    | absent => rfl
    | present source =>
      have hsource : visit (mapLiterals change source) = (visit source).mapLiterals change :=
        ihSource
      rw [mapLiterals, mapLiterals, visit, visit]
      simp only [ihColumns, hsource, ihJoins, ihFilter, ihGroupKeys, ihHaving, ihOrderings,
        Visit.mapLiterals_append]
      split <;> rfl

/-! ## Nodes that agree -/

theorem map_eq_of_isEqv {change : Value → Value} {related : Value → Value → Bool}
    (hrelated : ∀ value other, related value other → change value = change other)
    {values others : List Value} (h : values.isEqv others related) :
    values.map change = others.map change := by
  induction values generalizing others with
  | nil =>
    cases others with
    | nil => rfl
    | cons other others => nomatch h
  | cons value values ih =>
    cases others with
    | nil => nomatch h
    | cons other others =>
      rw [List.isEqv, Bool.and_eq_true] at h
      rw [List.map_cons, List.map_cons, hrelated value other h.1, ih h.2]

/-- Related literals that are changed to the same value leave no difference between nodes that
agree. -/
theorem mapLiterals_eq_of_agree {related : Value → Value → Bool}
    (hrelated : ∀ value other, related value other → change value = change other)
    {kind : Kind} {node other : Node kind} (h : agree related node other) :
    mapLiterals change node = mapLiterals change other := by
  induction node with
  | name _ | verbatim _ | nullTest _ | raw _ =>
    cases other <;> first
      | cases h
      | rw [eq_of_beq h]
  | computed _ ih | subquery _ ih | inline _ ih | coalesce _ ih | jsonObject _ ih | jsonArray _ ih
    | standalone _ ih | conditionTest _ ih | groupTest _ ih | present _ ih =>
    cases other <;> first
      | cases h
      | simp only [mapLiterals, ih h]
  | literal value =>
    cases other <;> first
      | cases h
      | simp only [mapLiterals, hrelated _ _ h]
  | compareValue op value =>
    cases other <;> first
      | cases h
      | obtain ⟨hop, hvalue⟩ := Bool.and_eq_true_iff.mp h
        simp only [mapLiterals, eq_of_beq hop, hrelated _ _ hvalue]
  | compareList op values =>
    cases other <;> first
      | cases h
      | obtain ⟨hop, hvalues⟩ := Bool.and_eq_true_iff.mp h
        simp only [mapLiterals, eq_of_beq hop, map_eq_of_isEqv hrelated hvalues]
  | compareField _ _ ih | compareExpr _ _ ih | single _ _ ih | nested _ _ ih | member _ _ ih =>
    cases other <;> first
      | cases h
      | obtain ⟨heq, hnode⟩ := Bool.and_eq_true_iff.mp h
        simp only [mapLiterals, eq_of_beq heq, ih hnode]
  | existsTest _ _ ih | column _ _ ih | derivedTable _ _ ih | ordering _ _ ih =>
    cases other <;> first
      | cases h
      | obtain ⟨hnode, heq⟩ := Bool.and_eq_true_iff.mp h
        simp only [mapLiterals, eq_of_beq heq, ih hnode]
  | namedTable table label =>
    cases other <;> first
      | cases h
      | obtain ⟨htable, hlabel⟩ := Bool.and_eq_true_iff.mp h
        rw [eq_of_beq htable, eq_of_beq hlabel]
  | paired _ _ ihLeft ihRight | compareTest _ _ ihLeft ihRight | branch _ _ ihLeft ihRight
    | cons _ _ ihLeft ihRight =>
    cases other <;> first
      | cases h
      | obtain ⟨hleft, hright⟩ := Bool.and_eq_true_iff.mp h
        simp only [mapLiterals, ihLeft hleft, ihRight hright]
  | join kind table condition ih =>
    cases other with
    | join kind' table' condition' =>
      simp only [agree, Bool.and_eq_true, beq_iff_eq] at h
      obtain ⟨⟨hkind, htable⟩, hcondition⟩ := h
      simp only [mapLiterals, hkind, ih htable, hcondition]
  | caseWhen first rest otherwise ihFirst ihRest ihOtherwise =>
    cases other with
    | caseWhen first' rest' otherwise' =>
      simp only [agree, Bool.and_eq_true] at h
      obtain ⟨⟨hfirst, hrest⟩, hotherwise⟩ := h
      simp only [mapLiterals, ihFirst hfirst, ihRest hrest, ihOtherwise hotherwise]
    | _ => nomatch h
  | select columns source joins filter groupKeys having orderings attributes ihColumns ihSource
      ihJoins ihFilter ihGroupKeys ihHaving ihOrderings =>
    cases other with
    | select =>
      simp only [agree, Bool.and_eq_true, beq_iff_eq] at h
      obtain ⟨⟨⟨⟨⟨⟨⟨hcolumns, hsource⟩, hjoins⟩, hfilter⟩, hgroupKeys⟩, hhaving⟩, horderings⟩,
        hattributes⟩ := h
      simp only [mapLiterals, ihColumns hcolumns, ihSource hsource, ihJoins hjoins,
        ihFilter hfilter, ihGroupKeys hgroupKeys, ihHaving hhaving, ihOrderings horderings,
        hattributes]
  | nil =>
    cases other with
    | nil => rfl
    | cons => nomatch h
  | absent =>
    cases other with
    | absent => rfl
    | present => nomatch h

theorem isEqv_map (related : Value → Value → Bool) (values others : List Value) :
    (values.map change).isEqv (others.map change) related =
      values.isEqv others fun value other ↦ related (change value) (change other) := by
  induction values generalizing others with
  | nil => cases others <;> rfl
  | cons value values ih =>
    cases others with
    | nil => rfl
    | cons other others =>
      exact congrArg (related (change value) (change other) && ·) (ih others)

/-- Nodes with changed literals agree if the literals are related once they are changed. -/
theorem agree_mapLiterals (related : Value → Value → Bool) {kind : Kind} (node other : Node kind) :
    agree related (mapLiterals change node) (mapLiterals change other) =
      agree (fun value other ↦ related (change value) (change other)) node other := by
  induction node with
  | compareList op values =>
    cases other <;> first
      | rfl
      | exact congrArg (_ && ·) (isEqv_map change related _ _)
  | _ => cases other <;> first
      | rfl
      | simp_all only [mapLiterals, agree]

end Node

end SqlSelect
