import SqlSelect.Proofs.Canonical
import SqlSelect.Proofs.Indistinguishable
import SqlSelect.Proofs.Interleaving
import SqlSelect.Proofs.Numbering

/-!
# Adding to a clause

The document of a statement is the documents of its clauses one after the other. A step
that adds to a clause makes the document of that clause longer at its end and leaves the
others as they are. So one stretch is inserted into the text, and all that changes
behind it is the numbers of the placeholders.
-/

namespace SqlSelect

open Document

/-! ## One computation for each item -/

section

variable {ε α β : Type} {items : List α} {first other : α → Except ε β}

theorem mapM_congr_of_mem (h : ∀ item ∈ items, first item = other item) :
    items.mapM first = items.mapM other := by
  induction items with
  | nil => rfl
  | cons item items ih =>
    obtain ⟨hitem, hitems⟩ := List.forall_mem_cons.mp h
    rw [List.mapM_cons, List.mapM_cons, hitem, ih hitems]

theorem Ensures.mapM {property : β → Prop} (h : ∀ item ∈ items, Ensures property (first item)) :
    Ensures (∀ result ∈ ·, property result) (items.mapM first) := by
  induction items with
  | nil => exact .pure nofun
  | cons item items ih =>
    obtain ⟨hitem, hitems⟩ := List.forall_mem_cons.mp h
    rw [List.mapM_cons]
    refine hitem.bind fun result hresult ↦ (ih hitems).bind fun results hresults ↦ ?_
    exact .pure (List.forall_mem_cons.mpr ⟨hresult, hresults⟩)

end

/-! ## Documents that grow -/

namespace Document

/-- A stretch with the given literals is added at the end. -/
def Grows (document : Document) (added : List Value) (longer : Document) : Prop :=
  ∃ inserted, longer = document ++ inserted ∧ inserted.literals = added

namespace Grows

variable {document longer : Document} {added : List Value}

theorem of_append {inserted : Document} (h : inserted.literals = added) :
    Grows document added (document ++ inserted) :=
  ⟨inserted, rfl, h⟩

theorem refl : Grows document [] document :=
  ⟨[], (List.append_nil document).symm, rfl⟩

theorem prepend (before : Document) (h : Grows document added longer) :
    Grows (before ++ document) added (before ++ longer) := by
  obtain ⟨inserted, rfl, hliterals⟩ := h
  exact ⟨inserted, (List.append_assoc before document inserted).symm, hliterals⟩

end Grows

theorem separated_append_singleton (separator : String) {documents : List Document}
    (hdocuments : documents ≠ []) (last : Document) :
    separated separator (documents ++ [last]) =
      separated separator documents ++ (fixed separator ++ last) := by
  induction documents with
  | nil => contradiction
  | cons first rest ih =>
    cases rest with
    | nil => simp
    | cons second rest => simp_all

section

variable (placeholder : Placeholder) (bound : Nat) (before inserted after : Document)

theorem write_append_eq_join :
    write placeholder bound (before ++ after) =
      Segment.join placeholder (before.segments bound) ++
        Segment.join placeholder (after.segments (bound + before.literals.length)) := by
  rw [write_append, join_segments, join_segments]

/-- Behind a stretch that is inserted the numbers are shifted by the count of its literals. -/
theorem write_insert_eq_join :
    let reached := bound + before.literals.length
    write placeholder bound (before ++ inserted ++ after) =
      Segment.join placeholder (before.segments bound) ++
        Segment.join placeholder (inserted.segments reached) ++
        Segment.join placeholder
          ((after.segments reached).map (Segment.shift inserted.literals.length)) := by
  intro reached
  rw [← segments_add, write_append, write_append, literals_append, List.length_append,
    ← Nat.add_assoc, join_segments, join_segments, join_segments]

end

end Document

namespace Reference

variable (style : Style)

theorem lines_grows {items : List Document} (hitems : items ≠ []) (last : Document) :
    Grows (lines style items) last.literals (lines style (items ++ [last])) := by
  rw [lines, lines, List.map_append, List.map_singleton,
    separated_append_singleton _ (by simpa using hitems)]
  exact .of_append (by simp)

theorem columns_grows {items : List Document} (hitems : items ≠ []) (last : Document) :
    Grows (columns style items) last.literals (columns style (items ++ [last])) := by
  cases items with
  | nil => contradiction
  | cons first rest => exact lines_grows style hitems last

theorem joins_grows (joins : List Document) (last : Document) :
    Grows (joins.flatMap (fixed "\n" ++ ·)) last.literals
      ((joins ++ [last]).flatMap (fixed "\n" ++ ·)) := by
  rw [List.flatMap_append]
  exact .of_append (by simp)

/-- The keyword stands before the first item, and what stands between items before the others. -/
theorem clause_listed_grows (keyword : String) {layout : List Document → Document}
    {last : Document} (hfirst : (layout [last]).literals = last.literals) (items : List Document)
    (hnext : items ≠ [] → Grows (layout items) last.literals (layout (items ++ [last]))) :
    Grows (clause keyword (listed layout items)) last.literals
      (clause keyword (listed layout (items ++ [last]))) := by
  cases items with
  | nil => exact ⟨_, (List.nil_append _).symm, by simpa [listed, clause] using hfirst⟩
  | cons first rest => exact (hnext (List.cons_ne_nil first rest)).prepend _

theorem groupKeys_grows (keyword : String) (keys : List Document) (last : Document) :
    let layout (keys : List Document) := indented style (separated "," keys)
    Grows (clause keyword (listed layout keys)) last.literals
      (clause keyword (listed layout (keys ++ [last]))) := by
  refine clause_listed_grows keyword (by simp) keys fun hkeys ↦ ?_
  rw [separated_append_singleton _ hkeys]
  exact (Grows.of_append (by simp)).prepend _

theorem orderings_grows (keyword : String) (orderings : List Document) (last : Document) :
    Grows (clause keyword (listed (lines style) orderings)) last.literals
      (clause keyword (listed (lines style) (orderings ++ [last]))) :=
  clause_listed_grows keyword (by simp [lines]) orderings fun horderings ↦
    lines_grows style horderings last

/-- A blank entry adds nothing. The first entry with a text brings the keyword, and each later one
its conjunction. -/
theorem clause_group_grows (keyword : String) (entries : List (Conjunction × Document))
    (last : Conjunction × Document) :
    Grows (clause keyword ((group style entries).map (indented style))) last.2.literals
      (clause keyword ((group style (entries ++ [last])).map (indented style))) := by
  unfold group
  rw [List.filter_append]
  cases hblank : isBlank last.2 with
  | true =>
    rw [List.filter_cons_of_neg (by simp [hblank]), List.filter_nil, List.append_nil,
      literals_eq_nil_of_isBlank hblank]
    exact .refl
  | false =>
    rw [List.filter_cons_of_pos (by simp [hblank]), List.filter_nil]
    cases entries.filter fun entry ↦ !isBlank entry.2 with
    | nil => exact ⟨_, (List.nil_append _).symm, by simp [clause, continuation]⟩
    | cons first rest =>
      refine Grows.prepend _ (Grows.prepend _ (Grows.prepend _ ?_))
      rw [continuation, continuation, List.append_eq, List.flatMap_append]
      exact .of_append (by simp)

end Reference

/-! ## The clauses of a document -/

namespace Clause

/-- The clauses in the order in which they are written. -/
def all : List Clause :=
  [options, head, columns, source, joins, filter, groupKeys, having, orderings, limit, offset]

def earlier (clause : Clause) : List Clause :=
  all.takeWhile (· ≠ clause)

def later (clause : Clause) : List Clause :=
  (all.dropWhile (· ≠ clause)).tail

theorem all_eq (clause : Clause) : all = clause.earlier ++ clause :: clause.later := by
  cases clause <;> rfl

theorem ne_of_mem_earlier {clause other : Clause} (h : other ∈ clause.earlier) :
    clause ≠ other := by
  rintro rfl
  revert h
  cases clause <;> decide

theorem ne_of_mem_later {clause other : Clause} (h : other ∈ clause.later) : clause ≠ other := by
  rintro rfl
  revert h
  cases clause <;> decide

end Clause

namespace Clauses

open Reference

variable (style : Style)

/-- The document of one clause, with the keyword and the line break before it. A head that is given
takes the place of the columns. -/
def document (clauses : Clauses) : Clause → Except BuildError Document
  | .options | .head => pure []
  | .columns => Reference.head style clauses.attributes.head (Node.document style clauses.columns)
  | .source => do
    match ← Node.document style clauses.source with
    | some source => return fixed "\nFROM\n" ++ indented style source
    | none => throw .tableNotSet
  | .joins => (·.flatMap (fixed "\n" ++ ·)) <$> Node.document style clauses.joins
  | .filter =>
    (fun body ↦ clause "WHERE" (body.map (indented style))) <$> Group.document style clauses.filter
  | .groupKeys =>
    (fun keys ↦ clause "GROUP BY"
      (Reference.listed (fun keys ↦ indented style (separated "," keys)) keys)) <$>
      Node.document style clauses.groupKeys
  | .having =>
    (fun body ↦ clause "HAVING" (body.map (indented style))) <$>
      Group.document style clauses.having
  | .orderings =>
    (fun orderings ↦ clause "ORDER BY" (Reference.listed (lines style) orderings)) <$>
      Node.document style clauses.orderings
  | .limit => pure (count "LIMIT " clauses.attributes.limit)
  | .offset => pure (count "OFFSET " clauses.attributes.offset)

variable {style} {clauses other : Clauses}

/-- A statement with a table is its clauses one after the other. -/
theorem document_ofClauses (source : Table) :
    Node.document style (Select.ofClauses { clauses with source := .present source }) =
      List.flatten <$> Clause.all.mapM
        (Clauses.document style { clauses with source := .present source }) := by
  simp [Select.ofClauses, Node.document_select, Node.document_present, Clause.all, document,
    statement, bind_map_left]

/-- The document of a clause depends on the other clauses only by a head that is given. -/
theorem document_congr {clause : Clause} (hhead : clauses.only .head = other.only .head)
    (hsame : clauses.only clause = other.only clause) :
    clauses.document style clause = other.document style clause := by
  cases clause <;> simp_all [only, document]

/-- The steps that add to what is there: a column to other columns that count, a limit or an offset
where there was none, and any entry of the other clauses that collect. -/
def AddedTo (clauses : Clauses) : Step → Prop
  | .column _ _ => clauses.attributes.head = none ∧ clauses.columns ≠ .nil
  | .join _ _ _ | .filter _ | .having _ | .groupKey _ | .ordering _ _ => True
  | .limit _ => clauses.attributes.limit = none
  | .offset _ => clauses.attributes.offset = none
  | .options _ | .head _ | .source _ => False

/-- Whether nothing is written for the clause. -/
def Silent (clauses : Clauses) : Clause → Prop
  | .options | .head => True
  | .columns | .source => False
  | .joins => clauses.joins = .nil
  | .filter => clauses.filter.vanishes
  | .groupKeys => clauses.groupKeys = .nil
  | .having => clauses.having.vanishes
  | .orderings => clauses.orderings = .nil
  | .limit => clauses.attributes.limit = none
  | .offset => clauses.attributes.offset = none

end Clauses

namespace Step

/-- The literals of what a step brings. -/
def literals : Step → List Value
  | column field label => (Node.column field label).literals
  | source table => table.literals
  | join kind table condition => (Node.join kind table condition).literals
  | filter criterion | having criterion => (criterion.toPredicate.entry .and).literals
  | groupKey field => field.literals
  | ordering field direction => (Node.ordering field direction).literals
  | options _ | head _ | limit _ | offset _ => []

end Step

/-! ## One more node -/

namespace Node

variable {style : Style}

/-- The literals of a document are those of the node, as they are bound. -/
theorem map_normalize_literals {kind : Kind} {node : Node kind} {document : kind.Rendered Document}
    (h : Node.document style node = .ok document) :
    (kind.literals document).map Value.normalize = node.literals.map Value.normalize := by
  have hrender := ((render_delivers style node default).eq_ok_iff _ _).mpr ⟨document, h, rfl, rfl⟩
  have hfollows := render_follows style node
  have hfault := hfollows.isOk_answer default
  have hleftover := hfollows.leftover_eq default
  rw [hrender] at hfault hleftover
  rw [(visit_reads node).bound_eq (Option.isNone_iff_eq_none.mp hfault.symm)] at hleftover
  exact List.toArray_inj ((Array.append_right_inj _).mp (congrArg Params.values hleftover))

theorem document_push {category : Category} (last : Node (.one category)) :
    ∀ nodes : Node (.many category), document style (nodes.push last) = do
      let documents ← document style nodes
      let lastDocument ← document style last
      return documents ++ [lastDocument]
  | nil => by
    change document style (cons last nil) = _
    simp [document]
  | cons first rest => by
    change document style (cons first (rest.push last)) = _
    simp [document, document_push last rest]

theorem conjunctions_push (group : Group) (last : Node (.one .entry)) :
    conjunctions (group.push last) = group.conjunctions ++ [last.conjunction] := by
  simp [conjunctions]

/-- If the layout of more documents grows by their literals, what is laid out of one more node grows
by the literals of the node. -/
theorem grows_of_push {category : Category} {nodes : Node (.many category)}
    {last : Node (.one category)} {layout longerLayout : List Document → Document}
    {shorter longer : Document}
    (hlayout : ∀ documents lastDocument, document style nodes = .ok documents →
      Grows (layout documents) lastDocument.literals (longerLayout (documents ++ [lastDocument])))
    (h : layout <$> document style nodes = .ok shorter)
    (hlonger : longerLayout <$> document style (nodes.push last) = .ok longer) :
    ∃ inserted, longer = shorter ++ inserted ∧
      inserted.literals.map Value.normalize = last.literals.map Value.normalize := by
  rw [map_eq_pure_bind] at h hlonger
  obtain ⟨documents, hdocuments, hshorter⟩ := bind_eq_ok h
  rw [document_push, hdocuments] at hlonger
  obtain ⟨_, hpushed, hlonger⟩ := bind_eq_ok hlonger
  obtain ⟨_, ⟨⟩, hpushed⟩ := bind_eq_ok hpushed
  obtain ⟨lastDocument, hlast, hpushed⟩ := bind_eq_ok hpushed
  cases hshorter
  cases hpushed
  cases hlonger
  obtain ⟨inserted, hinserted, hliterals⟩ := hlayout documents lastDocument hdocuments
  exact ⟨inserted, hinserted, hliterals ▸ map_normalize_literals hlast⟩

end Node

open Reference

variable {style : Style}

theorem Group.grows_of_add {group : Group} {criterion : Criterion} {keyword : String}
    {shorter longer : Document}
    (h : (fun body ↦ clause keyword (body.map (indented style))) <$> Group.document style group =
      .ok shorter)
    (hlonger : (fun body ↦ clause keyword (body.map (indented style))) <$>
      Group.document style (group.add .and criterion) = .ok longer) :
    ∃ inserted, longer = shorter ++ inserted ∧
      inserted.literals.map Value.normalize =
        (criterion.toPredicate.entry .and).literals.map Value.normalize := by
  rw [Group.document, Functor.map_map] at h hlonger
  refine Node.grows_of_push (fun documents lastDocument hdocuments ↦ ?_) h hlonger
  have hlength : group.conjunctions.length = documents.length := by
    rw [Node.length_document style group documents hdocuments, Node.conjunctions, List.length_map]
  rw [Group.add, Node.conjunctions_push, List.zip_append hlength]
  exact clause_group_grows style keyword _ _

namespace Clauses

variable {clauses : Clauses} {step : Step}

/-- A step that adds to a clause makes its document longer by the literals of what it brings. -/
theorem document_step {shorter longer : Document} (hadded : clauses.AddedTo step)
    (h : clauses.document style step.clause = .ok shorter)
    (hlonger : (clauses.step step).document style step.clause = .ok longer) :
    ∃ inserted, longer = shorter ++ inserted ∧
      inserted.literals.map Value.normalize = step.literals.map Value.normalize := by
  cases step with
  | options _ | head _ | source _ => cases hadded
  | column field label =>
    obtain ⟨hhead, hcolumns⟩ := hadded
    simp only [document, Step.clause, Clauses.step, hhead, Reference.head, bind_pure_comp]
      at h hlonger
    refine Node.grows_of_push (fun documents lastDocument hdocuments ↦ ?_) h hlonger
    have hlength := Node.length_document style clauses.columns documents hdocuments
    have hdocuments : documents ≠ [] := by
      rintro rfl
      exact hcolumns (Node.toList_injective (List.length_eq_zero_iff.mp hlength.symm))
    exact (columns_grows style hdocuments lastDocument).prepend _
  | join kind table condition =>
    exact Node.grows_of_push (fun documents lastDocument _ ↦ joins_grows documents lastDocument)
      h hlonger
  | filter criterion | having criterion => exact Group.grows_of_add h hlonger
  | groupKey field =>
    exact Node.grows_of_push (fun documents lastDocument _ ↦
      groupKeys_grows style _ documents lastDocument) h hlonger
  | ordering field direction =>
    exact Node.grows_of_push (fun documents lastDocument _ ↦
      orderings_grows style _ documents lastDocument) h hlonger
  | limit number =>
    cases h
    cases hlonger
    have hlimit : clauses.attributes.limit = none := hadded
    rw [hlimit]
    exact ⟨count "LIMIT " (some number), rfl, rfl⟩
  | offset number =>
    cases h
    cases hlonger
    have hoffset : clauses.attributes.offset = none := hadded
    rw [hoffset]
    exact ⟨count "OFFSET " (some number), rfl, rfl⟩

theorem document_of_silent {clause : Clause} (hsilent : clauses.Silent clause) :
    Ensures (· = []) (clauses.document style clause) := by
  have hgroup (keyword : String) {group : Group} (hvanishes : group.vanishes) :
      Ensures (· = []) ((fun body ↦ Reference.clause keyword (body.map (indented style))) <$>
        Group.document style group) := by
    rw [Group.document, Functor.map_map]
    refine (Node.isNone_group_document style group).map fun documents hnone ↦ ?_
    rw [Option.isNone_iff_eq_none.mp (hnone.trans hvanishes)]
    rfl
  cases clause with
  | options | head => exact .pure rfl
  | columns | source => cases hsilent
  | filter | having => exact hgroup _ hsilent
  | joins | groupKeys | orderings | limit | offset =>
    simp only [Silent] at hsilent
    rw [document, hsilent]
    exact .pure rfl

theorem exists_split {whole : Document} (clause : Clause)
    (h : Node.document style (Select.ofClauses clauses) = .ok whole) :
    ∃ earlier one later,
      clause.earlier.mapM (clauses.document style) = .ok earlier ∧
        clauses.document style clause = .ok one ∧
        clause.later.mapM (clauses.document style) = .ok later ∧
        whole = earlier.flatten ++ one ++ later.flatten := by
  have hsource : ∃ source, clauses = { clauses with source := .present source } := by
    obtain ⟨columns, source, joins, filter, groupKeys, having, orderings, attributes⟩ := clauses
    cases source with
    | absent => cases h
    | present source => exact ⟨source, rfl⟩
  obtain ⟨source, hsource⟩ := hsource
  rw [hsource, document_ofClauses, ← hsource, map_eq_pure_bind, clause.all_eq,
    List.mapM_append] at h
  obtain ⟨documents, hdocuments, ⟨⟩⟩ := bind_eq_ok h
  obtain ⟨earlier, hearlier, hdocuments⟩ := bind_eq_ok hdocuments
  obtain ⟨others, hothers, ⟨⟩⟩ := bind_eq_ok hdocuments
  rw [List.mapM_cons] at hothers
  obtain ⟨one, hone, hothers⟩ := bind_eq_ok hothers
  obtain ⟨later, hlater, ⟨⟩⟩ := bind_eq_ok hothers
  exact ⟨earlier, one, later, hearlier, hone, hlater, by simp⟩

theorem AddedTo.clause_ne_head (h : clauses.AddedTo step) : step.clause ≠ .head := by
  intro hhead
  cases step with
  | head sql => exact h
  | _ => cases hhead

/-- So the document of a statement grows by one stretch, with nothing behind it if the clauses that
are written later are silent. -/
theorem document_ofClauses_step {whole longer : Document} (hadded : clauses.AddedTo step)
    (h : Node.document style (Select.ofClauses clauses) = .ok whole)
    (hlonger : Node.document style (Select.ofClauses (clauses.step step)) = .ok longer) :
    ∃ before inserted after : Document, whole = before ++ after ∧
      longer = before ++ inserted ++ after ∧
      inserted.literals.map Value.normalize = step.literals.map Value.normalize ∧
      ((∀ clause ∈ step.clause.later, clauses.Silent clause) → after = []) := by
  obtain ⟨earlier, one, later, hearlier, hone, hlater, rfl⟩ := exists_split step.clause h
  obtain ⟨earlierToo, longerOne, laterToo, hearlierToo, hlongerOne, hlaterToo, rfl⟩ :=
    exists_split step.clause hlonger
  have hothers {clause : Clause} (hne : step.clause ≠ clause) :
      (clauses.step step).document style clause = clauses.document style clause :=
    document_congr (only_step_of_ne clauses hadded.clause_ne_head) (only_step_of_ne clauses hne)
  rw [mapM_congr_of_mem fun clause hclause ↦ hothers (Clause.ne_of_mem_earlier hclause), hearlier]
    at hearlierToo
  rw [mapM_congr_of_mem fun clause hclause ↦ hothers (Clause.ne_of_mem_later hclause), hlater]
    at hlaterToo
  cases hearlierToo
  cases hlaterToo
  obtain ⟨inserted, rfl, hliterals⟩ := document_step hadded hone hlongerOne
  refine ⟨earlier.flatten ++ one, inserted, later.flatten, rfl, by simp, hliterals, ?_⟩
  intro hsilent
  refine List.flatten_eq_nil_iff.mpr (Ensures.mapM (fun clause hclause ↦ ?_) later hlater)
  exact document_of_silent (hsilent clause hclause)

end Clauses

namespace Select

/-- An entry that is added to a clause inserts one stretch into the text, and its values where the
values of that stretch belong. What stands before it does not change, and behind it only the
numbers do. If nothing is written behind the clause, the text and the values only grow. -/
theorem step_inserts_one_stretch {query : Select} {step : Step}
    (hadded : query.clauses.AddedTo step) {params left longerLeft : Params}
    {text longerText : String} (hrender : (Node.render style query).run params = .ok text left)
    (hlonger : (Node.render style (query.step step)).run params = .ok longerText longerLeft) :
    ∃ before inserted after : Document,
      Node.document style query = .ok (before ++ after) ∧
      Node.document style (query.step step) = .ok (before ++ inserted ++ after) ∧
      let reached := params.size + before.literals.length
      let start := before.segments params.size
      let stretch := inserted.segments reached
      let rest := after.segments reached
      let shifted := rest.map (Segment.shift step.literals.length)
      let join := Segment.join params.placeholder
      text = join start ++ join rest ∧
      params.Binds (before.literals ++ after.literals) left ∧
      longerText = join start ++ join stretch ++ join shifted ∧
      params.Binds (before.literals ++ step.literals ++ after.literals) longerLeft ∧
      Segment.tokens start = before.literals.zipIdx (params.size + 1) ∧
      (Segment.tokens stretch).map (Prod.map Value.normalize id) =
        (step.literals.map Value.normalize).zipIdx (reached + 1) ∧
      (params.placeholder = .questionMark → join shifted = join rest) ∧
      ((∀ clause ∈ step.clause.later, query.clauses.Silent clause) →
        longerText = text ++ join stretch ∧ left.Binds step.literals longerLeft) := by
  obtain ⟨whole, hwhole, htext, hleft⟩ :=
    ((Node.render_delivers style query params).eq_ok_iff text left).mp hrender
  obtain ⟨longer, hdocument, hlongerText, hlongerLeft⟩ :=
    ((Node.render_delivers style (query.step step) params).eq_ok_iff longerText longerLeft).mp
      hlonger
  obtain ⟨before, inserted, after, rfl, rfl, hliterals, hsilent⟩ :=
    Clauses.document_ofClauses_step hadded (by rw [ofClauses_clauses, hwhole]) hdocument
  have hlength : inserted.literals.length = step.literals.length := by
    simpa using congrArg List.length hliterals
  refine ⟨before, inserted, after, hwhole, hdocument, ?_⟩
  intro reached start stretch rest shifted join
  have hjoined : text = join start ++ join rest :=
    htext.trans (write_append_eq_join params.placeholder params.size before after)
  have hvalues : left = params.append (before.literals ++ after.literals) := by
    rw [hleft, Kind.literals_one, literals_append]
  have hlongerJoined : longerText = join start ++ join stretch ++ join shifted := by
    rw [hlongerText, Kind.write_one, write_insert_eq_join, hlength]
  have hlongerValues :
      longerLeft = params.append (before.literals ++ step.literals ++ after.literals) := by
    rw [hlongerLeft]
    simp only [Kind.literals_one, Params.append, literals_append, List.map_append, hliterals]
  simp only [Params.binds_iff]
  refine ⟨hjoined, hvalues, hlongerJoined, hlongerValues, tokens_segments _ _, ?_, ?_, ?_⟩
  · rw [tokens_segments, ← hliterals, List.zipIdx_map]
  · intro hplaceholder
    simp only [join, hplaceholder]
    exact Segment.join_map_shift_questionMark _ rest
  · intro hlater
    have hnone : join rest = "" ∧ join shifted = "" ∧ after.literals = [] := by
      simp only [join, shifted, rest, hsilent hlater]
      exact ⟨rfl, rfl, rfl⟩
    obtain ⟨hrest, hshifted, hafter⟩ := hnone
    constructor
    · rw [hlongerJoined, hjoined, hrest, hshifted, String.append_empty, String.append_empty]
    · rw [hlongerValues, hvalues, hafter, List.append_nil, List.append_nil, Params.append_append]

/-- A second condition is added although there is a HAVING already. -/
theorem step_inserts_one_stretch_before_having :
    let query := ofClauses
      { source := .present (.namedTable "t" none)
        filter := Group.empty.add .and (.compare (.name "b") .gt (.value (.int 1)))
        having := Group.empty.add .and (.compare (.name "c") .lt (.value (.int 2))) }
    let step : Step := .filter (.implied (.name "d") (.value (.int 3)))
    let params := Params.empty .dollarNumbered
    let start := "SELECT\n  *\nFROM\n  \x60t\x60\nWHERE\n  (\x60b\x60 > $1)"
    let text := start ++ "\nHAVING\n  (\x60c\x60 < $2)"
    let longerText := start ++ "\n  AND (\x60d\x60 = $2)\nHAVING\n  (\x60c\x60 < $3)"
    query.clauses.AddedTo step ∧
      (Node.render default query).run params = .ok text (params.append [.int 1, .int 2]) ∧
      (Node.render default (query.step step)).run params =
        .ok longerText (params.append [.int 1, .int 3, .int 2]) ∧
      ∃ before inserted after : Document,
        Node.document default query = .ok (before ++ after) ∧
        Node.document default (query.step step) = .ok (before ++ inserted ++ after) := by
  intro query step params start text longerText
  have hadded : query.clauses.AddedTo step := trivial
  have hrender : (Node.render default query).run (Params.empty .dollarNumbered) =
      .ok text (params.append [.int 1, .int 2]) := rfl
  have hlonger : (Node.render default (query.step step)).run (Params.empty .dollarNumbered) =
      .ok longerText (params.append [.int 1, .int 3, .int 2]) := by
    unfold query step
    rfl
  obtain ⟨before, inserted, after, hdocument, hlongerDocument, -⟩ :=
    step_inserts_one_stretch hadded hrender hlonger
  exact ⟨hadded, hrender, hlonger, before, inserted, after, hdocument, hlongerDocument⟩

end Select

end SqlSelect
