import SqlSelect.Call
import SqlSelect.Proofs.Segments

/-!
# Labels

A label is quoted as a name is, segment by segment, wherever it is given. So what stands
behind AS is one identifier exactly if there is no dot in the label; with a dot, a reader
of identifiers gets the first segment only and the others are left behind it.
-/

namespace SqlSelect

/-! ## What can be given a label -/

inductive Labelable : Category → Type where
  | column (field : Field) : Labelable .column
  | table (name : String) : Labelable .table
  | query (inner : Select) : Labelable .table
  | join (kind : Option JoinKind) (table : Labelable .table) (condition : String) :
      Labelable .join

namespace Labelable

/-- A join has the label of its table. -/
def withLabel : {category : Category} → Labelable category → String → Node (.one category)
  | _, column field, label => .column field (some label)
  | _, table name, label => .namedTable name (some label)
  | _, query inner, label => .derivedTable inner label
  | _, join kind joined condition, label => .join kind (joined.withLabel label) condition

/-- What is written before the label. -/
def leading (style : Style) : {category : Category} → Labelable category → Rendering String
  | _, column field => Node.render style field
  | _, table name => pure (style.identifier name)
  | _, query inner => Layout.parenthesized <$> Node.render style inner
  | _, join kind joined _ =>
    ((kind.elim "" fun kind ↦ kind.sql ++ " ") ++ "JOIN " ++ ·) <$> joined.leading style

/-- What is written after the label. -/
def trailing : {category : Category} → Labelable category → String
  | _, join _ joined condition => joined.trailing ++ " ON " ++ condition
  | _, _ => ""

theorem render_withLabel (style : Style) {category : Category} (part : Labelable category)
    (label : String) :
    Node.render style (part.withLabel label) =
      (fun before ↦ before ++ Layout.aliasSuffix style (some label) ++ part.trailing) <$>
        part.leading style := by
  induction part with
  | column field => simp [withLabel, leading, trailing, Node.render]
  | table name => simp [withLabel, leading, trailing, Node.render]
  | query inner => simp [withLabel, leading, trailing, Node.render]
  | join kind joined condition ih =>
    cases kind <;>
      simp [withLabel, leading, trailing, Node.render, ih, Layout.join, String.append_assoc]

end Labelable

/-- What the call puts into a statement, and the label that it gives. -/
def Call.labelled? : Call → Option ((category : Category) × Labelable category × String)
  | columnAs field label => some ⟨.column, .column field, label⟩
  | sourceAs table label => some ⟨.table, .table table, label⟩
  | sourceQuery query label => some ⟨.table, .query query, label⟩
  | joinAs kind table label condition => some ⟨.join, .join kind (.table table) condition, label⟩
  | joinQuery kind query label condition =>
    some ⟨.join, .join kind (.query query) condition, label⟩
  | leftJoinAs table label condition =>
    some ⟨.join, .join (some .left) (.table table) condition, label⟩
  | leftJoinQuery query label condition =>
    some ⟨.join, .join (some .left) (.query query) condition, label⟩
  | innerJoinAs table label condition =>
    some ⟨.join, .join (some .inner) (.table table) condition, label⟩
  | rightJoinAs table label condition =>
    some ⟨.join, .join (some .right) (.table table) condition, label⟩
  | _ => none

/-- The node that was put into the clause last. -/
def Select.latest? (query : Select) : (category : Category) → Option (Node (.one category))
  | .column => query.clauses.columns.toList.getLast?
  | .table => query.clauses.source.toOption
  | .join => query.clauses.joins.toList.getLast?
  | _ => none

theorem Select.latest?_step {call : Call} {category : Category} {part : Labelable category}
    {label : String} (h : call.labelled? = some ⟨category, part, label⟩) (query : Select) :
    (query.step call.step).latest? category = some (part.withLabel label) := by
  cases call with
  | columnAs | joinAs | joinQuery | leftJoinAs | leftJoinQuery | innerJoinAs | rightJoinAs =>
    cases h
    simp [latest?, step, Call.step, Clauses.step, Labelable.withLabel]
  | sourceAs | sourceQuery =>
    cases h
    rfl
  | _ => cases h

/-! ## Reading the label -/

namespace Text

/-- Reads an identifier between quotes, and gives what is left behind it. -/
def quotedIdentifier? (quote : Char) : List Char → Option (List Char × List Char)
  | [] => none
  | c :: cs =>
    if c = quote then
      match cs.dropWhile (· != quote) with
      | [] => none
      | _ :: rest => some (cs.takeWhile (· != quote), rest)
    else none

/-- Reads the identifier behind AS. -/
def label? (quote : Char) (cs : List Char) : Option (List Char × List Char) :=
  (cs.dropPrefix? " AS ".toList).bind (quotedIdentifier? quote)

theorem quotedIdentifier?_quoted {quote : Char} {inner : List Char} (h : quote ∉ inner)
    (rest : List Char) :
    quotedIdentifier? quote (quote :: (inner ++ quote :: rest)) = some (inner, rest) := by
  have hinner : ∀ c ∈ inner, (c != quote) = true := by
    intro c hc
    rw [bne_iff_ne]
    rintro rfl
    exact h hc
  rw [quotedIdentifier?, if_pos rfl, List.dropWhile_append_of_pos hinner,
    List.takeWhile_append_of_pos hinner]
  simp

end Text

theorem Identifier.segments_eq_singleton {cs : List Char} (h : '.' ∉ cs) : segments cs = [cs] :=
  List.splitOn_eq_singleton h

section

variable {quote : Char} (hquote : quote ∈ identifierQuotes) {label : String}
  (hlabel : Unquoted label.toList) {style : Style}
  (hstyle : style.quoting = .marked (String.singleton quote))

include hquote hlabel hstyle

theorem label?_aliasSuffix {first : List Char} {others : List (List Char)}
    (hsegments : Identifier.segments label.toList = first :: others) (rest : String) :
    Text.label? quote (Layout.aliasSuffix style (some label) ++ rest).toList =
      some (first, dotted quote others ++ rest.toList) := by
  have hfirst : quote ∉ first :=
    hlabel.segment (hsegments ▸ List.mem_cons_self) quote (mem_quoteMarks hquote)
  rw [Layout.aliasSuffix, String.append_assoc, String.toList_append, Text.label?,
    List.dropPrefix?_append_of_beq _ BEq.rfl, Option.bind_some, String.toList_append,
    Style.identifier, hstyle, toList_identifier_of_segments hlabel hsegments, List.cons_append,
    List.append_assoc, List.cons_append]
  exact Text.quotedIdentifier?_quoted hfirst _

/-- The reader gets the whole label, and leaves nothing of it behind, exactly if no dot cuts it. -/
theorem label?_aliasSuffix_eq_iff (rest : String) :
    Text.label? quote (Layout.aliasSuffix style (some label) ++ rest).toList =
      some (label.toList, rest.toList) ↔ '.' ∉ label.toList := by
  constructor
  · intro hread
    obtain ⟨first, others, hsegments⟩ := Identifier.exists_segments_eq_cons label.toList
    have hfirst : first ∈ Identifier.segments label.toList :=
      hsegments ▸ List.mem_cons_self
    rw [label?_aliasSuffix hquote hlabel hstyle hsegments] at hread
    obtain ⟨rfl, -⟩ := Prod.mk.inj (Option.some.inj hread)
    exact Identifier.dot_not_mem_segment hfirst
  · intro hdot
    have hsegments := Identifier.segments_eq_singleton hdot
    exact label?_aliasSuffix hquote hlabel hstyle hsegments rest

theorem aliasSuffix_eq_iff :
    Layout.aliasSuffix style (some label) =
      " AS " ++ String.singleton quote ++ label ++ String.singleton quote ↔
        '.' ∉ label.toList := by
  constructor
  · intro hsuffix
    have hread := Text.quotedIdentifier?_quoted (hlabel quote (mem_quoteMarks hquote)) []
    refine (label?_aliasSuffix_eq_iff hquote hlabel hstyle "").mp ?_
    rw [hsuffix, String.append_assoc, String.append_assoc, String.append_assoc,
      String.toList_append, Text.label?, List.dropPrefix?_append_of_beq _ BEq.rfl]
    simpa using hread
  · intro hdot
    have hsegments := Identifier.segments_eq_singleton hdot
    rw [Layout.aliasSuffix, ← String.toList_inj, String.toList_append, Style.identifier, hstyle,
      toList_identifier_of_segments hlabel hsegments]
    simp [dotted]

end

/-- Wherever a label is given, it is written as one identifier behind AS exactly if there is no dot
in it. A reader then gets the label; otherwise it gets the first segment of the label, and the
others are left behind the identifier. -/
theorem label_is_one_identifier_iff {quote : Char} (hquote : quote ∈ identifierQuotes)
    {label : String} (hlabel : Unquoted label.toList) {style : Style}
    (hstyle : style.quoting = .marked (String.singleton quote)) :
    let suffix := Layout.aliasSuffix style (some label)
    let mark := String.singleton quote
    (∀ (call : Call) (category : Category) (part : Labelable category),
      call.labelled? = some ⟨category, part, label⟩ → ∀ query : Select,
        (query.step call.step).latest? category = some (part.withLabel label)) ∧
    (∀ (category : Category) (part : Labelable category),
      Node.render style (part.withLabel label) =
        (fun before ↦ before ++ suffix ++ part.trailing) <$> part.leading style) ∧
    (suffix = " AS " ++ mark ++ label ++ mark ↔ '.' ∉ label.toList) ∧
    ∃ first others, Identifier.segments label.toList = first :: others ∧ ∀ rest : String,
      let read := Text.label? quote (suffix ++ rest).toList
      read = some (first, dotted quote others ++ rest.toList) ∧
        (read = some (label.toList, rest.toList) ↔ '.' ∉ label.toList) := by
  intro suffix mark
  obtain ⟨first, others, hsegments⟩ := Identifier.exists_segments_eq_cons label.toList
  refine ⟨fun call category part h query ↦ query.latest?_step h,
    fun category part ↦ part.render_withLabel style label,
    aliasSuffix_eq_iff hquote hlabel hstyle, first, others, hsegments, fun rest ↦ ⟨?_, ?_⟩⟩
  · exact label?_aliasSuffix hquote hlabel hstyle hsegments rest
  · exact label?_aliasSuffix_eq_iff hquote hlabel hstyle rest

/-- The label of a joined subquery, between double quotes and followed by the condition. -/
theorem label_is_one_identifier_iff_before_condition :
    let style : Style := { (default : Style) with quoting := .marked (String.singleton '\x22') }
    let inner : Select := Select.construct [.source "orders"]
    let part : Labelable .join := .join (some .left) (.query inner) "true"
    let suffix := Layout.aliasSuffix style (some "größe (cm)")
    '\x22' ∈ identifierQuotes ∧ Unquoted "größe (cm)".toList ∧ '.' ∉ "größe (cm)".toList ∧
      suffix = " AS " ++ String.singleton '\x22' ++ "größe (cm)" ++ String.singleton '\x22' ∧
      (Select.empty.step (Call.leftJoinQuery inner "größe (cm)" "true").step).latest? .join =
        some (part.withLabel "größe (cm)") ∧
      part.trailing = " ON true" ∧
      Text.label? '\x22' (suffix ++ " ON true").toList =
        some ("größe (cm)".toList, " ON true".toList) := by
  intro style inner part suffix
  have hquote : '\x22' ∈ identifierQuotes := by decide
  have hlabel : Unquoted "größe (cm)".toList := by decide
  have hdot : '.' ∉ "größe (cm)".toList := by decide
  have hstyle : style.quoting = .marked (String.singleton '\x22') := rfl
  obtain ⟨hcalls, -, hsuffix, first, others, -, hread⟩ :=
    label_is_one_identifier_iff hquote hlabel hstyle
  exact ⟨hquote, hlabel, hdot, hsuffix.mpr hdot, hcalls _ .join part rfl Select.empty, rfl,
    (hread " ON true").2.mpr hdot⟩

/-- A column with a dot in its label is written with two identifiers behind AS. -/
theorem dotted_label_is_cut :
    let suffix := Layout.aliasSuffix default (some "a.b")
    '\x60' ∈ identifierQuotes ∧ Unquoted "a.b".toList ∧
      (default : Style).quoting = .marked (String.singleton '\x60') ∧
      (Select.construct [.columnAs (.name "id") "a.b", .source "t"]).toSql =
        .ok ⟨"SELECT\n  \x60id\x60 AS \x60a\x60.\x60b\x60\nFROM\n  \x60t\x60", #[]⟩ ∧
      suffix = " AS \x60a\x60.\x60b\x60" ∧ suffix ≠ " AS \x60a.b\x60" ∧
      Text.label? '\x60' suffix.toList = some ("a".toList, ".\x60b\x60".toList) := by
  intro suffix
  exact ⟨by decide, by decide, rfl, rfl, by decide, by decide, by decide⟩

end SqlSelect
