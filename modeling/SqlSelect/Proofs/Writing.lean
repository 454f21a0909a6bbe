import SqlSelect.Proofs.Reference

/-!
# Writing the reference

Each part of the reference, once written, is the layout of the texts of its
parts, and its literals are those of its parts from left to right.
-/

namespace SqlSelect

open Document

namespace Reference

variable {placeholder : Placeholder} {bound : Nat} (style : Style)

@[simp] theorem literals_enclosed (document : Document) :
    literals (enclosed document) = literals document := by
  simp [enclosed]

@[simp] theorem write_enclosed (document : Document) :
    write placeholder bound (enclosed document) =
      Layout.parenthesized (write placeholder bound document) := by
  simp [enclosed, Layout.parenthesized, String.append_assoc]

@[simp] theorem literals_labelled (document : Document) (label : Option String) :
    literals (labelled style document label) = literals document := by
  cases label <;> simp [labelled]

@[simp] theorem write_labelled (document : Document) (label : Option String) :
    write placeholder bound (labelled style document label) =
      write placeholder bound document ++ Layout.aliasSuffix style label := by
  cases label <;> simp [labelled, Layout.aliasSuffix]

/-! ## Groups -/

theorem intercalate_cons (separator first : String) (rest : List String) :
    separator.intercalate (first :: rest) =
      first ++ String.join (rest.map (separator ++ ·)) := by
  induction rest generalizing first with
  | nil => simp
  | cons second rest ih => simp [ih second, String.append_assoc]

theorem survivors_cons (conjunction : Conjunction) (conjunctions : List Conjunction)
    (text : String) (texts : List String) :
    Layout.survivors (conjunction :: conjunctions) (text :: texts) =
      if text.isEmpty then Layout.survivors conjunctions texts
      else (conjunction, text) :: Layout.survivors conjunctions texts := by
  cases h : text.isEmpty <;> simp [Layout.survivors, h]

theorem continuation_cons (entry : Conjunction × Document)
    (entries : List (Conjunction × Document)) :
    continuation style (entry :: entries) =
      fixed ("\n" ++ style.indent ++ entry.1.sql ++ " ") ++ entry.2 ++
        continuation style entries := by
  simp [continuation]

/-- Blank entries bind nothing, so leaving them out does not change the numbers after them. -/
theorem write_continuation (conjunctions : List Conjunction) (documents : List Document) :
    write placeholder bound
        (continuation style ((conjunctions.zip documents).filter fun entry ↦ !isBlank entry.2)) =
      String.join ((Layout.survivors conjunctions (writeAll placeholder bound documents)).map
        fun entry ↦ "\n" ++ Layout.entryLine style entry) := by
  induction documents generalizing conjunctions bound with
  | nil => simp [writeAll, Layout.survivors, continuation]
  | cons first rest ih =>
    cases conjunctions with
    | nil => simp [Layout.survivors, continuation]
    | cons conjunction conjunctions =>
      have hempty := isEmpty_write placeholder bound first
      rw [writeAll, survivors_cons, hempty, List.zip_cons_cons]
      cases hblank : isBlank first with
      | true =>
        rw [List.filter_cons_of_neg (by simp [hblank]), if_pos rfl, ih,
          literals_eq_nil_of_isBlank hblank]
        rfl
      | false =>
        rw [List.filter_cons_of_pos (by simp [hblank]), if_neg (by simp), continuation_cons]
        simp [ih, Layout.entryLine, String.append_assoc]

theorem write_group (conjunctions : List Conjunction) (documents : List Document) :
    (group style (conjunctions.zip documents)).map (write placeholder bound) =
      Layout.group style conjunctions (writeAll placeholder bound documents) := by
  induction documents generalizing conjunctions bound with
  | nil => simp [group, writeAll, Layout.group, Layout.survivors]
  | cons first rest ih =>
    cases conjunctions with
    | nil => simp [group, Layout.group, Layout.survivors]
    | cons conjunction conjunctions =>
      have hempty := isEmpty_write placeholder bound first
      unfold group Layout.group at ih ⊢
      rw [writeAll, survivors_cons, hempty, List.zip_cons_cons]
      cases hblank : isBlank first with
      | true =>
        rw [List.filter_cons_of_neg (by simp [hblank]), if_pos rfl, ih,
          literals_eq_nil_of_isBlank hblank]
        rfl
      | false =>
        rw [List.filter_cons_of_pos (by simp [hblank]), if_neg (by simp)]
        simp [write_continuation, intercalate_cons, Function.comp_def]

theorem literals_continuation (entries : List (Conjunction × Document)) :
    literals (continuation style (entries.filter fun entry ↦ !isBlank entry.2)) =
      entries.flatMap fun entry ↦ literals entry.2 := by
  induction entries with
  | nil => rfl
  | cons entry entries ih =>
    cases hblank : isBlank entry.2 with
    | true =>
      rw [List.filter_cons_of_neg (by simp [hblank]), ih]
      simp [literals_eq_nil_of_isBlank hblank]
    | false =>
      rw [List.filter_cons_of_pos (by simp [hblank]), continuation_cons]
      simp [ih]

theorem literals_group (entries : List (Conjunction × Document)) :
    (group style entries).elim [] literals = entries.flatMap fun entry ↦ literals entry.2 := by
  unfold group
  induction entries with
  | nil => rfl
  | cons entry entries ih =>
    cases hblank : isBlank entry.2 with
    | true =>
      rw [List.filter_cons_of_neg (by simp [hblank]), ih]
      simp [literals_eq_nil_of_isBlank hblank]
    | false =>
      rw [List.filter_cons_of_pos (by simp [hblank])]
      simp [literals_continuation]

/-! ## Statements -/

@[simp] theorem literals_indented (document : Document) :
    literals (indented style document) = literals document := by
  simp [indented]

@[simp] theorem write_indented (document : Document) :
    write placeholder bound (indented style document) =
      style.indent ++ write placeholder bound document := by
  simp [indented]

theorem writeAll_map_indented (documents : List Document) :
    writeAll placeholder bound (documents.map (indented style)) =
      (writeAll placeholder bound documents).map (style.indent ++ ·) :=
  writeAll_map_append style.indent documents

theorem literals_lines (items : List Document) :
    literals (lines style items) = items.flatMap literals := by
  simp [lines, literals_separated, List.flatMap_map]

theorem write_lines (items : List Document) :
    write placeholder bound (lines style items) =
      Layout.lines style (writeAll placeholder bound items) := by
  rw [lines, write_separated, writeAll_map_indented, Layout.lines]

theorem literals_columns (items : List Document) :
    literals (columns style items) = items.flatMap literals := by
  cases items with
  | nil => rfl
  | cons first rest => exact literals_lines style _

theorem write_columns (items : List Document) :
    write placeholder bound (columns style items) =
      Layout.columns style (writeAll placeholder bound items) := by
  cases items with
  | nil => simp [columns, Layout.columns, writeAll]
  | cons first rest => exact write_lines style _

theorem literals_joins (joins : List Document) :
    literals (joins.flatMap (fixed "\n" ++ ·)) = joins.flatMap literals := by
  simp [List.flatMap_def, literals_flatten, Function.comp_def]

theorem write_joins (joins : List Document) :
    write placeholder bound (joins.flatMap (fixed "\n" ++ ·)) =
      String.join ((writeAll placeholder bound joins).map ("\n" ++ ·)) := by
  rw [List.flatMap_def, write_flatten, writeAll_map_append]

theorem literals_clause (keyword : String) (body : Option Document) :
    literals (clause keyword body) = body.elim [] literals := by
  cases body <;> simp [clause]

theorem write_clause (keyword : String) (body : Option Document) :
    write placeholder bound (clause keyword body) =
      String.join (((body.map (write placeholder bound)).map (Layout.titled keyword)).toList.map
        ("\n" ++ ·)) := by
  cases body <;> simp [clause, Layout.titled, String.append_assoc]

theorem literals_count (keyword : String) (number : Option Nat) :
    literals (count keyword number) = [] := by
  cases number <;> simp [count]

theorem write_count (keyword : String) (number : Option Nat) :
    write placeholder bound (count keyword number) =
      String.join ((number.map fun n ↦ keyword ++ toString n).toList.map ("\n" ++ ·)) := by
  cases number <;> simp [count, String.append_assoc]

theorem literals_listed {layout : List Document → Document}
    (hlayout : ∀ items, literals (layout items) = items.flatMap literals)
    (items : List Document) : (listed layout items).elim [] literals = items.flatMap literals := by
  cases items <;> simp [listed, hlayout]

namespace Parts

/-- The literals of the parts, from left to right. -/
def literals (parts : Parts) : List Value :=
  Document.literals parts.head ++ Document.literals parts.source ++
    parts.joins.flatMap Document.literals ++ parts.filter.elim [] Document.literals ++
    parts.groupKeys.flatMap Document.literals ++ parts.having.elim [] Document.literals ++
    parts.orderings.flatMap Document.literals

/-- The parts written one after the other, each counting on from those before it. -/
def write (placeholder : Placeholder) (bound : Nat) (parts : Parts) : Layout.Sections :=
  let afterHead := bound + (Document.literals parts.head).length
  let afterSource := afterHead + (Document.literals parts.source).length
  let afterJoins := afterSource + (parts.joins.flatMap Document.literals).length
  let afterFilter := afterJoins + (parts.filter.elim [] Document.literals).length
  let afterKeys := afterFilter + (parts.groupKeys.flatMap Document.literals).length
  let afterHaving := afterKeys + (parts.having.elim [] Document.literals).length
  { head := Document.write placeholder bound parts.head
    source := Document.write placeholder afterHead parts.source
    joins := writeAll placeholder afterSource parts.joins
    filter := parts.filter.map (Document.write placeholder afterJoins)
    groupKeys := writeAll placeholder afterFilter parts.groupKeys
    having := parts.having.map (Document.write placeholder afterKeys)
    orderings := writeAll placeholder afterHaving parts.orderings }

end Parts

theorem literals_groupKeys (keys : List Document) :
    literals (indented style (separated "," keys)) = keys.flatMap literals := by
  rw [literals_indented, literals_separated]

theorem elim_map_indented (body : Option Document) :
    (body.map (indented style)).elim [] literals = body.elim [] literals := by
  cases body <;> simp

theorem literals_statement (parts : Parts) (attributes : Attributes) :
    literals (statement style parts attributes) = parts.literals := by
  simp only [statement, Parts.literals, literals_append, literals_fixed, literals_indented,
    literals_joins, literals_clause, literals_count, elim_map_indented,
    literals_listed (literals_groupKeys style), literals_listed (literals_lines style),
    List.append_nil]

theorem write_groupKeys (keys : List Document) :
    write placeholder bound (indented style (separated "," keys)) =
      style.indent ++ Layout.groupKeys (writeAll placeholder bound keys) := by
  rw [write_indented, write_separated, Layout.groupKeys]

theorem write_clause_indented (keyword : String) (body : Option Document) :
    write placeholder bound (clause keyword (body.map (indented style))) =
      String.join (((body.map (write placeholder bound)).map fun text ↦
        Layout.titled keyword (style.indent ++ text)).toList.map ("\n" ++ ·)) := by
  cases body <;> simp [write_clause]

/-- A clause of listed items is left out exactly if there are no items. -/
theorem write_clause_listed (keyword : String) {layout : List Document → Document}
    (layoutText : List String → String)
    (hlayout : ∀ items, write placeholder bound (layout items) =
      layoutText (writeAll placeholder bound items))
    (items : List Document) :
    write placeholder bound (clause keyword (listed layout items)) =
      String.join ((if (writeAll placeholder bound items).isEmpty then []
        else [Layout.titled keyword (layoutText (writeAll placeholder bound items))]).map
          ("\n" ++ ·)) := by
  cases items with
  | nil => rfl
  | cons first rest => simp [listed, write_clause, hlayout, writeAll]

theorem write_clause_groupKeys (keyword : String) (keys : List Document) :
    write placeholder bound
        (clause keyword (listed (fun keys ↦ indented style (separated "," keys)) keys)) =
      String.join ((if (writeAll placeholder bound keys).isEmpty then []
        else [Layout.titled keyword
          (style.indent ++ Layout.groupKeys (writeAll placeholder bound keys))]).map
            ("\n" ++ ·)) :=
  write_clause_listed keyword (style.indent ++ Layout.groupKeys ·) (write_groupKeys style) keys

theorem write_clause_orderings (keyword : String) (orderings : List Document) :
    write placeholder bound (clause keyword (listed (lines style) orderings)) =
      String.join ((if (writeAll placeholder bound orderings).isEmpty then []
        else [Layout.titled keyword
          (Layout.orderings style (writeAll placeholder bound orderings))]).map ("\n" ++ ·)) :=
  write_clause_listed keyword (Layout.orderings style) (write_lines style) orderings

theorem write_statement (parts : Parts) (attributes : Attributes) :
    write placeholder bound (statement style parts attributes) =
      Layout.select style (parts.write placeholder bound) attributes := by
  have hfrom : "\nFROM\n" = "\n" ++ ("FROM" ++ "\n") := by decide
  rw [Layout.select, Layout.sectionTexts]
  simp only [List.cons_append, List.nil_append, intercalate_cons, List.map_cons, List.map_append,
    String.join_cons, String.join_append]
  simp only [statement, write_append, write_fixed, write_indented, write_joins,
    write_clause_indented, write_clause_groupKeys, write_clause_orderings, write_count,
    literals_append, literals_fixed, literals_indented, literals_joins, literals_clause,
    elim_map_indented, literals_listed (literals_groupKeys style),
    literals_listed (literals_lines style), List.append_nil, List.length_append, ← Nat.add_assoc]
  simp only [Parts.write, Layout.titled, String.append_assoc, hfrom]

end Reference

end SqlSelect
