import Mathlib.Data.List.Basic
import SqlSelect.Proofs.Marks
import SqlSelect.Proofs.Vanishing

/-!
# Spelling with other quotes

A document may be known for every way to quote. It is spelled if it is put together
from names, from literals and from text without a backtick, the same for every way to
quote. Then its text in any quotes is the text in backticks with those quotes put in
for the backticks, and there are two backticks for each segment of a name.
-/

namespace SqlSelect

open Document

/-- Free of the backtick. -/
def Text.Unticked (text : String) : Prop :=
  '\x60' ∉ text.toList

instance (text : String) : Decidable (Text.Unticked text) :=
  inferInstanceAs (Decidable (¬_))

namespace Text.Unticked

theorem of_unquoted {text : String} (h : Unquoted text.toList) : Unticked text :=
  h '\x60' (by decide)

theorem append {first second : String} (hfirst : Unticked first) (hsecond : Unticked second) :
    Unticked (first ++ second) := by
  unfold Unticked
  rw [String.toList_append, List.mem_append, not_or]
  exact ⟨hfirst, hsecond⟩

theorem number (number : Nat) : Unticked (toString number) := by
  intro hmem
  exact absurd (isDigit_of_mem_toString hmem) (by decide)

theorem token (placeholder : Placeholder) (position : Nat) :
    Unticked (placeholder.token position) := by
  cases placeholder with
  | questionMark => rw [Placeholder.token]; decide
  | dollarNumbered => exact append (by decide) (number position)

/-- A key is in single quotes, and only those are doubled. -/
theorem quoted {key : String} (h : Unticked key) : Unticked (Text.quoted key) := by
  unfold Unticked
  rw [toList_quoted]
  simp only [List.mem_cons, List.mem_append, List.not_mem_nil, or_false, not_or]
  refine ⟨by decide, fun hmem ↦ h (mem_of_mem_doubleQuotes hmem), by decide⟩

end Text.Unticked

/-! ## Names -/

namespace Identifier

/-- How many segments the names have, all together. -/
def countSegments (names : List String) : Nat :=
  (names.flatMap fun name ↦ segments name.toList).length

@[simp] theorem countSegments_append (names others : List String) :
    countSegments (names ++ others) = countSegments names + countSegments others := by
  simp [countSegments]

end Identifier

namespace Quoting

def backtick : Quoting := marked "\x60"

/-- The quote in the place of a backtick, and any other character as it is. -/
def respell (quoting : Quoting) (c : Char) : List Char :=
  if c = '\x60' then quoting.mark else [c]

/-- The text with the quote put in for each backtick. -/
def respelled (quoting : Quoting) (text : String) : String :=
  String.ofList (text.toList.flatMap quoting.respell)

theorem flatMap_respell (quoting : Quoting) {cs : List Char} (h : '\x60' ∉ cs) :
    cs.flatMap quoting.respell = cs := by
  calc cs.flatMap quoting.respell
      = cs.flatMap fun c ↦ [c] := by
        apply List.flatMap_congr
        intro c hc
        rw [respell, if_neg]
        rintro rfl
        exact h hc
    _ = cs := List.flatMap_singleton' cs

/-- A name in other quotes is the name in backticks with those quotes put in. -/
theorem flatMap_respell_apply (quoting : Quoting) {name : String} (h : Unquoted name.toList) :
    (backtick.apply name).toList.flatMap quoting.respell = (quoting.apply name).toList := by
  have hsegment : ∀ segment ∈ Identifier.segments name.toList,
      ('.' :: (backtick.mark ++ segment ++ backtick.mark)).flatMap quoting.respell =
        '.' :: (quoting.mark ++ segment ++ quoting.mark) := by
    intro segment hsegment
    have hsame := flatMap_respell quoting (h.segment hsegment '\x60' (by decide))
    simp [backtick, mark, respell, hsame]
  have hdotted : '.' :: (backtick.apply name).toList.flatMap quoting.respell =
      '.' :: (quoting.apply name).toList := by
    calc '.' :: (backtick.apply name).toList.flatMap quoting.respell
        = ('.' :: (backtick.apply name).toList).flatMap quoting.respell := by
          simp [respell]
      _ = (Identifier.segments name.toList).flatMap fun segment ↦
            ('.' :: (backtick.mark ++ segment ++ backtick.mark)).flatMap quoting.respell := by
          rw [toList_apply backtick h, List.flatMap_assoc]
      _ = (Identifier.segments name.toList).flatMap fun segment ↦
            '.' :: (quoting.mark ++ segment ++ quoting.mark) := List.flatMap_congr hsegment
      _ = '.' :: (quoting.apply name).toList := (toList_apply quoting h).symm
  exact (List.cons.inj hdotted).2

theorem count_apply {name : String} (h : Unquoted name.toList) :
    (backtick.apply name).toList.count '\x60' =
      2 * (Identifier.segments name.toList).length := by
  have hsegment : ∀ segment ∈ Identifier.segments name.toList,
      ('.' :: (backtick.mark ++ segment ++ backtick.mark)).count '\x60' = 2 := by
    intro segment hsegment
    have hnone := List.count_eq_zero.mpr (h.segment hsegment '\x60' (by decide))
    simp [backtick, mark, hnone]
  calc (backtick.apply name).toList.count '\x60'
      = ('.' :: (backtick.apply name).toList).count '\x60' := by simp
    _ = ((Identifier.segments name.toList).map fun segment ↦
          ('.' :: (backtick.mark ++ segment ++ backtick.mark)).count '\x60').sum := by
        rw [toList_apply backtick h, List.count_flatMap]
        rfl
    _ = 2 * (Identifier.segments name.toList).length := by
        rw [List.map_congr_left hsegment, List.map_const', List.sum_replicate_nat, Nat.mul_comm]

end Quoting

/-! ## Documents -/

/-- Put together from the names given, from literals and from text without a backtick. -/
inductive Spells : List String → (Quoting → Document) → Prop
  | nil : Spells [] fun _ ↦ []
  | fixed {text : String} (htext : Text.Unticked text) : Spells [] fun _ ↦ Document.fixed text
  | literal (value : Value) : Spells [] fun _ ↦ Document.literal value
  | name {path : String} (hpath : Unquoted path.toList) :
      Spells [path] fun quoting ↦ Document.fixed (quoting.apply path)
  | append {names others : List String} {first second : Quoting → Document}
      (hfirst : Spells names first) (hsecond : Spells others second) :
      Spells (names ++ others) fun quoting ↦ first quoting ++ second quoting

namespace Spells

variable {names : List String} {family : Quoting → Document}

theorem literals_eq (h : Spells names family) (quoting : Quoting) :
    literals (family quoting) = literals (family .backtick) := by
  induction h with
  | nil | fixed _ | literal _ | name _ => rfl
  | append _ _ ihFirst ihSecond => rw [literals_append, literals_append, ihFirst, ihSecond]

/-- In any quotes the text is that in backticks with those quotes put in. -/
theorem write_eq_respelled (h : Spells names family) (quoting : Quoting)
    (placeholder : Placeholder) (bound : Nat) :
    write placeholder bound (family quoting) =
      quoting.respelled (write placeholder bound (family .backtick)) := by
  rw [← String.toList_inj, Quoting.respelled, String.toList_ofList]
  induction h generalizing bound with
  | nil => rfl
  | fixed htext => rw [write_fixed, quoting.flatMap_respell htext]
  | literal value =>
    rw [write_literal, quoting.flatMap_respell (Text.Unticked.token placeholder (bound + 1))]
  | name hpath => rw [write_fixed, write_fixed, quoting.flatMap_respell_apply hpath]
  | append hfirst hsecond ihFirst ihSecond =>
    rw [write_append, write_append, String.toList_append, String.toList_append,
      List.flatMap_append, hfirst.literals_eq, ihFirst, ihSecond]

/-- There are two backticks for each segment. -/
theorem count_write (h : Spells names family) (placeholder : Placeholder) (bound : Nat) :
    (write placeholder bound (family .backtick)).toList.count '\x60' =
      2 * Identifier.countSegments names := by
  induction h generalizing bound with
  | nil => rfl
  | fixed htext => rw [write_fixed, List.count_eq_zero.mpr htext]; rfl
  | literal value =>
    rw [write_literal, List.count_eq_zero.mpr (Text.Unticked.token placeholder (bound + 1))]
    rfl
  | @name path hpath =>
    rw [write_fixed, Quoting.count_apply hpath]
    simp [Identifier.countSegments]
  | append _ _ ihFirst ihSecond =>
    rw [write_append, String.toList_append, List.count_append, ihFirst, ihSecond,
      Identifier.countSegments_append, Nat.mul_add]

/-- Where nothing is written there is no name: even the empty name has quotes. -/
theorem names_eq_nil (h : Spells names family) (hblank : isBlank (family .backtick)) :
    names = [] := by
  induction h with
  | nil | fixed _ | literal _ => rfl
  | @name path hpath =>
    rw [isBlank_fixed, String.isEmpty_iff] at hblank
    have hcount := Quoting.count_apply hpath
    have hsegments : 0 < (Identifier.segments path.toList).length :=
      List.length_pos_of_ne_nil (List.splitOn_ne_nil '.' path.toList)
    have hnone : "".toList.count '\x60' = 0 := rfl
    rw [hblank] at hcount
    omega
  | append _ _ ihFirst ihSecond =>
    rw [isBlank_append, Bool.and_eq_true] at hblank
    rw [ihFirst hblank.1, ihSecond hblank.2, List.append_nil]

/-! ## Layouts of one document -/

theorem lead {text : String} (htext : Text.Unticked text) (h : Spells names family) :
    Spells names fun quoting ↦ Document.fixed text ++ family quoting :=
  (Spells.fixed htext).append h

theorem close (h : Spells names family) {text : String} (htext : Text.Unticked text) :
    Spells names fun quoting ↦ family quoting ++ Document.fixed text := by
  have happend := h.append (.fixed htext)
  rwa [List.append_nil] at happend

theorem enclosed (h : Spells names family) :
    Spells names fun quoting ↦ Reference.enclosed (family quoting) :=
  (h.lead (by decide)).close (by decide)

theorem between {others : List String} {other : Quoting → Document} (h : Spells names family)
    {text : String} (htext : Text.Unticked text) (hother : Spells others other) :
    Spells (names ++ others) fun quoting ↦ family quoting ++ Document.fixed text ++ other quoting :=
  (h.close htext).append hother

end Spells

/-! ## Several documents -/

/-- Each of several documents is spelled. -/
inductive SpellsEach : List String → (Quoting → List Document) → Prop
  | nil : SpellsEach [] fun _ ↦ []
  | cons {names others : List String} {first : Quoting → Document}
      {rest : Quoting → List Document} (hfirst : Spells names first)
      (hrest : SpellsEach others rest) :
      SpellsEach (names ++ others) fun quoting ↦ first quoting :: rest quoting

/-- There is a document for every way to quote, which is spelled, or for none. -/
inductive SpellsSome : List String → (Quoting → Option Document) → Prop
  | none : SpellsSome [] fun _ ↦ none
  | some {names : List String} {family : Quoting → Document} (h : Spells names family) :
      SpellsSome names fun quoting ↦ some (family quoting)

/-- What nodes of the kind are given is spelled. -/
def Kind.Spells : (kind : Kind) → List String → (Quoting → kind.Rendered Document) → Prop
  | .one _ => SqlSelect.Spells
  | .many _ => SpellsEach
  | .maybe _ => SpellsSome

namespace SpellsEach

variable {names : List String} {family : Quoting → List Document}

theorem flatten (h : SpellsEach names family) :
    Spells names fun quoting ↦ (family quoting).flatten := by
  induction h with
  | nil => exact .nil
  | cons hfirst _ ih =>
    simp only [List.flatten_cons]
    exact hfirst.append ih

theorem map (h : SpellsEach names family) {layout : Document → Document}
    (hlayout : ∀ {names one}, Spells names one →
      Spells names fun quoting ↦ layout (one quoting)) :
    SpellsEach names fun quoting ↦ (family quoting).map layout := by
  induction h with
  | nil => exact .nil
  | cons hfirst _ ih => exact .cons (hlayout hfirst) ih

theorem separated (h : SpellsEach names family) {separator : String}
    (hseparator : Text.Unticked separator) :
    Spells names fun quoting ↦ Document.separated separator (family quoting) := by
  induction h with
  | nil => exact .nil
  | @cons _ _ first rest hfirst hrest ih =>
    cases hrest with
    | nil =>
      simp only [separated_singleton, List.append_nil]
      exact hfirst
    | cons _ _ =>
      simp only [separated_cons_cons]
      exact hfirst.between hseparator ih

/-- A clause of listed items is left out if there are none. -/
theorem listed (h : SpellsEach names family) {layout : List Document → Document}
    (hlayout : ∀ {names family}, SpellsEach names family →
      Spells names fun quoting ↦ layout (family quoting)) :
    SpellsSome names fun quoting ↦ Reference.listed layout (family quoting) := by
  cases h with
  | nil => exact .none
  | cons hfirst hrest => exact .some (hlayout (.cons hfirst hrest))

end SpellsEach

namespace SpellsSome

variable {names : List String} {family : Quoting → Option Document}

theorem map (h : SpellsSome names family) {layout : Document → Document}
    (hlayout : ∀ {names one}, Spells names one →
      Spells names fun quoting ↦ layout (one quoting)) :
    SpellsSome names fun quoting ↦ (family quoting).map layout := by
  cases h with
  | none => exact .none
  | some h => exact .some (hlayout h)

theorem elim (h : SpellsSome names family) {layout : Document → Document}
    (hlayout : ∀ {names one}, Spells names one →
      Spells names fun quoting ↦ layout (one quoting)) :
    Spells names fun quoting ↦ (family quoting).elim [] layout := by
  cases h with
  | none => exact .nil
  | some h => exact hlayout h

theorem clause (h : SpellsSome names family) {keyword : String}
    (hkeyword : Text.Unticked keyword) :
    Spells names fun quoting ↦ Reference.clause keyword (family quoting) := by
  have hlead : Text.Unticked ("\n" ++ keyword ++ "\n") :=
    (Text.Unticked.append (by decide) hkeyword).append (by decide)
  cases h with
  | none => exact .nil
  | some h => exact h.lead hlead

theorem write_eq_respelled (h : SpellsSome names family) (quoting : Quoting)
    (placeholder : Placeholder) (bound : Nat) :
    (family quoting).map (write placeholder bound) =
      ((family .backtick).map (write placeholder bound)).map quoting.respelled := by
  cases h with
  | none => rfl
  | some h => exact congrArg Option.some (h.write_eq_respelled quoting placeholder bound)

theorem count_write (h : SpellsSome names family) (placeholder : Placeholder) (bound : Nat) :
    (((family .backtick).map (write placeholder bound)).getD "").toList.count '\x60' =
      2 * Identifier.countSegments names := by
  cases h with
  | none => rfl
  | some h => exact h.count_write placeholder bound

end SpellsSome

/-! ## Groups -/

/-- Each of the entries that are written is spelled. -/
inductive SpellsEntries : List String → (Quoting → List (Conjunction × Document)) → Prop
  | nil : SpellsEntries [] fun _ ↦ []
  | cons {names others : List String} (conjunction : Conjunction) {first : Quoting → Document}
      {rest : Quoting → List (Conjunction × Document)} (hfirst : Spells names first)
      (hrest : SpellsEntries others rest) :
      SpellsEntries (names ++ others) fun quoting ↦ (conjunction, first quoting) :: rest quoting

/-- If the same entries are blank for every way to quote, the same are written. -/
theorem SpellsEach.survivors {names : List String} {family : Quoting → List Document}
    (h : SpellsEach names family) {conjunctions : List Conjunction} {blanks : List Bool}
    (hlength : conjunctions.length = blanks.length)
    (hblanks : ∀ quoting, (family quoting).map isBlank = blanks) :
    SpellsEntries names fun quoting ↦
      (conjunctions.zip (family quoting)).filter fun entry ↦ !isBlank entry.2 := by
  induction h generalizing conjunctions blanks with
  | nil =>
    simp only [List.zip_nil_right, List.filter_nil]
    exact .nil
  | @cons names others first rest hfirst hrest ih =>
    obtain ⟨blank, blanks, rfl⟩ : ∃ blank rest, blanks = blank :: rest :=
      ⟨_, _, (hblanks .bare).symm⟩
    obtain ⟨conjunction, conjunctions, rfl⟩ := List.exists_cons_of_length_eq_add_one hlength
    have hblank : ∀ quoting, isBlank (first quoting) = blank :=
      fun quoting ↦ (List.cons.inj (hblanks quoting)).1
    have hsurvivors := ih (Nat.succ.inj hlength) fun quoting ↦ (List.cons.inj (hblanks quoting)).2
    simp only [List.zip_cons_cons, List.filter_cons, hblank]
    cases blank with
    | true =>
      rw [hfirst.names_eq_nil (hblank .backtick)]
      exact hsurvivors
    | false => exact .cons conjunction hfirst hsurvivors

/-! ## Layouts of a style -/

namespace Style

/-- The style with another way to quote. -/
def withQuoting (style : Style) (quoting : Quoting) : Style :=
  { style with quoting }

/-- None of the strings that the style adds to a text holds a quote. -/
structure QuoteFree (style : Style) : Prop where
  indent : Unquoted style.indent.toList
  jsonObjectFunction : Unquoted style.jsonObjectFunction.toList
  jsonArrayFunction : Unquoted style.jsonArrayFunction.toList

theorem labelled_spells (style : Style) {names : List String} {family : Quoting → Document}
    (h : Spells names family) {label : Option String}
    (hlabel : ∀ given ∈ label, Unquoted given.toList) :
    Spells (names ++ label.toList) fun quoting ↦
      Reference.labelled (style.withQuoting quoting) (family quoting) label := by
  cases label with
  | none =>
    rw [Option.toList_none, List.append_nil]
    exact h
  | some given => exact h.between (by decide) (.name (hlabel given rfl))

theorem count_spells {keyword : String} (hkeyword : Text.Unticked keyword) (number : Option Nat) :
    Spells [] fun _ ↦ Reference.count keyword number := by
  cases number with
  | none => exact .nil
  | some number =>
    exact .fixed ((Text.Unticked.append (by decide) hkeyword).append (.number number))

namespace QuoteFree

variable {style : Style} (h : style.QuoteFree)
include h

theorem indented {names : List String} {family : Quoting → Document}
    (hfamily : Spells names family) :
    Spells names fun quoting ↦ Reference.indented style (family quoting) :=
  hfamily.lead (.of_unquoted h.indent)

theorem lines {names : List String} {family : Quoting → List Document}
    (hfamily : SpellsEach names family) :
    Spells names fun quoting ↦ Reference.lines style (family quoting) :=
  (hfamily.map h.indented).separated (by decide)

theorem columns {names : List String} {family : Quoting → List Document}
    (hfamily : SpellsEach names family) :
    Spells names fun quoting ↦ Reference.columns style (family quoting) := by
  cases hfamily with
  | nil => exact .fixed ((Text.Unticked.of_unquoted h.indent).append (by decide))
  | cons hfirst hrest => exact h.lines (.cons hfirst hrest)

theorem continuation {names : List String} {family : Quoting → List (Conjunction × Document)}
    (hfamily : SpellsEntries names family) :
    Spells names fun quoting ↦ Reference.continuation style (family quoting) := by
  induction hfamily with
  | nil => exact .nil
  | cons conjunction hfirst _ ih =>
    have hbreak : Text.Unticked ("\n" ++ style.indent) :=
      .append (by decide) (.of_unquoted h.indent)
    have hlead : Text.Unticked ("\n" ++ style.indent ++ conjunction.sql ++ " ") :=
      (hbreak.append (by cases conjunction <;> decide)).append (by decide)
    simp only [Reference.continuation_cons]
    exact (hfirst.lead hlead).append ih

/-- The first of the entries that are written stands without its conjunction. -/
theorem survivors {names : List String} {entries : Quoting → List (Conjunction × Document)}
    (hentries : SpellsEntries names entries) :
    ∃ family, SpellsSome names family ∧ ∀ quoting all,
      all.filter (fun entry ↦ !isBlank entry.2) = entries quoting →
        Reference.group style all = family quoting := by
  cases hentries with
  | nil => exact ⟨_, .none, fun quoting all hall ↦ by rw [Reference.group, hall]⟩
  | cons conjunction hfirst hrest =>
    exact ⟨_, .some (hfirst.append (h.continuation hrest)),
      fun quoting all hall ↦ by rw [Reference.group, hall]⟩

theorem group {names : List String} {family : Quoting → List Document}
    (hfamily : SpellsEach names family) {conjunctions : List Conjunction} {blanks : List Bool}
    (hlength : conjunctions.length = blanks.length)
    (hblanks : ∀ quoting, (family quoting).map isBlank = blanks) :
    SpellsSome names fun quoting ↦ Reference.group style (conjunctions.zip (family quoting)) := by
  obtain ⟨group, hgroup, heq⟩ := h.survivors (hfamily.survivors hlength hblanks)
  have hsame : (fun quoting ↦ Reference.group style (conjunctions.zip (family quoting))) = group :=
    funext fun quoting ↦ heq quoting _ rfl
  rw [hsame]
  exact hgroup

theorem statement {headNames sourceNames joinNames filterNames keyNames havingNames
    orderingNames : List String} {head source : Quoting → Document}
    {joins groupKeys orderings : Quoting → List Document}
    {filter having : Quoting → Option Document} (attributes : Attributes)
    (hhead : Spells headNames head) (hsource : Spells sourceNames source)
    (hjoins : SpellsEach joinNames joins) (hfilter : SpellsSome filterNames filter)
    (hgroupKeys : SpellsEach keyNames groupKeys) (hhaving : SpellsSome havingNames having)
    (horderings : SpellsEach orderingNames orderings) :
    Spells (headNames ++ sourceNames ++ joinNames ++ filterNames ++ keyNames ++ havingNames ++
        orderingNames) fun quoting ↦
      Reference.statement style
        { head := head quoting
          source := source quoting
          joins := joins quoting
          filter := filter quoting
          groupKeys := groupKeys quoting
          having := having quoting
          orderings := orderings quoting }
        attributes := by
  have hjoined : Spells joinNames fun quoting ↦ (joins quoting).flatMap (fixed "\n" ++ ·) := by
    simp only [List.flatMap_def]
    exact (hjoins.map fun hone ↦ hone.lead (by decide)).flatten
  have hfrom : Spells (headNames ++ sourceNames) fun quoting ↦
      head quoting ++ fixed "\nFROM\n" ++ Reference.indented style (source quoting) :=
    hhead.between (by decide) (h.indented hsource)
  have hwhere : Spells filterNames fun quoting ↦
      Reference.clause "WHERE" ((filter quoting).map (Reference.indented style)) :=
    (hfilter.map h.indented).clause (by decide)
  have hkeys {names : List String} {family : Quoting → List Document}
      (hfamily : SpellsEach names family) : Spells names fun quoting ↦
        Reference.indented style (Document.separated "," (family quoting)) :=
    h.indented (hfamily.separated (by decide))
  have hgroupBy : Spells keyNames fun quoting ↦ Reference.clause "GROUP BY" (Reference.listed
      (fun keys ↦ Reference.indented style (Document.separated "," keys)) (groupKeys quoting)) :=
    (hgroupKeys.listed hkeys).clause (by decide)
  have hhavingClause : Spells havingNames fun quoting ↦
      Reference.clause "HAVING" ((having quoting).map (Reference.indented style)) :=
    (hhaving.map h.indented).clause (by decide)
  have horderBy : Spells orderingNames fun quoting ↦ Reference.clause "ORDER BY"
      (Reference.listed (Reference.lines style) (orderings quoting)) :=
    (horderings.listed h.lines).clause (by decide)
  have hlimit : Spells [] fun _ ↦ Reference.count "LIMIT " attributes.limit :=
    count_spells (by decide) _
  have hoffset : Spells [] fun _ ↦ Reference.count "OFFSET " attributes.offset :=
    count_spells (by decide) _
  have hall := ((((((hfrom.append hjoined).append hwhere).append hgroupBy).append
    hhavingClause).append horderBy).append hlimit).append hoffset
  rw [List.append_nil, List.append_nil] at hall
  exact hall

end QuoteFree

end Style

end SqlSelect
