import SqlSelect.Proofs.Retouching

/-!
# The entries that are written

The text of a group is made up of the texts of those of its entries that do not
vanish, and of their conjunctions but for the first. Whether a group has a text is
thus known before it is rendered, and with it whether a statement has a WHERE or a
HAVING.
-/

namespace SqlSelect

namespace Group

variable (style : Style)

/-- Entries rendered in turn: each goes on from the parameters that those before it leave. -/
inductive InTurn : Params → List (Node (.one .entry) × String) → Params → Prop
  | nil (params : Params) : InTurn params [] params
  | cons {params middle after : Params} {entry : Node (.one .entry)} {text : String}
      {rest : List (Node (.one .entry) × String)}
      (hentry : (Node.render style entry).run params = .ok text middle)
      (hrest : InTurn middle rest after) : InTurn params ((entry, text) :: rest) after

/-- An entry that is not the first to be written stands on a line of its own, behind its
conjunction. -/
def laterLine (rendered : Node (.one .entry) × String) : String :=
  match rendered.1.conjunction with
  | .and => style.indent ++ "AND" ++ " " ++ rendered.2
  | .or => style.indent ++ "OR" ++ " " ++ rendered.2

/-- The entries that do not vanish, each on a line and the first without its conjunction. -/
def written (rendered : List (Node (.one .entry) × String)) : Option String :=
  match rendered.filter fun one ↦ !one.1.vanishes with
  | [] => none
  | first :: rest => some ("\n".intercalate (first.2 :: rest.map (laterLine style)))

variable {style}

/-! ## Rendering the entries -/

theorem render_entries_eq_ok_iff : ∀ (entries : Group) {params after : Params}
    {texts : List String}, Node.render style entries params = .ok texts after ↔
      ∃ rendered, rendered.map Prod.fst = entries.toList ∧ rendered.map Prod.snd = texts ∧
        InTurn style params rendered after
  | .nil, params, after, texts => by
    constructor
    · rintro ⟨⟩
      exact ⟨[], rfl, rfl, .nil params⟩
    · rintro ⟨rendered, hentries, rfl, hturn⟩
      obtain rfl := List.map_eq_nil_iff.mp hentries
      cases hturn
      rfl
  | .cons first rest, params, after, texts => by
    have hrest := @render_entries_eq_ok_iff rest
    simp only [Node.render, bind_eq_ok_iff]
    constructor
    · rintro ⟨text, middle, hfirst, others, _, hothers, ⟨⟩⟩
      obtain ⟨rendered, hentries, rfl, hturn⟩ := hrest.mp hothers
      exact ⟨(first, text) :: rendered, congrArg (first :: ·) hentries, rfl, .cons hfirst hturn⟩
    · rintro ⟨rendered, hentries, rfl, hturn⟩
      cases hturn with
      | nil => cases hentries
      | cons hentry hturn =>
        obtain ⟨rfl, htail⟩ := List.cons.inj hentries
        exact ⟨_, _, hentry, _, _, hrest.mpr ⟨_, htail, rfl, hturn⟩, rfl⟩

theorem isEmpty_of_render {entry : Node (.one .entry)} {params after : Params} {text : String}
    (h : Node.render style entry params = .ok text after) : text.isEmpty = entry.vanishes := by
  obtain ⟨document, hdocument, rfl, -⟩ :=
    ((Node.render_delivers style entry params).eq_ok_iff text after).mp h
  calc (Document.write params.placeholder params.size document).isEmpty
      = document.isBlank := Document.isEmpty_write _ _ document
    _ = entry.vanishes := Node.isBlank_entry style entry document hdocument

/-- An entry that vanishes has no text and binds nothing. -/
theorem render_of_vanishes {entry : Node (.one .entry)} (h : entry.vanishes) (params : Params) :
    Node.render style entry params = .ok "" params := by
  have hfollows := Node.render_follows style entry params
  rw [Node.visit_of_vanishes h, Visit.fault?_nil, Visit.bound_nil, Params.append_nil] at hfollows
  cases hrender : Node.render style entry params with
  | ok text after =>
    have hempty := isEmpty_of_render hrender
    rw [h, String.isEmpty_iff] at hempty
    rw [hrender] at hfollows
    rw [hempty, (Prod.mk.inj hfollows).2]
  | error error after =>
    rw [hrender] at hfollows
    cases hfollows

/-- The texts of entries rendered in turn are empty where the entries vanish. -/
theorem InTurn.isEmpty_eq {params after : Params}
    {rendered : List (Node (.one .entry) × String)} (h : InTurn style params rendered after) :
    ∀ one ∈ rendered, one.2.isEmpty = one.1.vanishes := by
  induction h with
  | nil => exact nofun
  | cons hentry _ ih => exact List.forall_mem_cons.mpr ⟨isEmpty_of_render hentry, ih⟩

/-- So the layout, which looks at the texts, writes the entries that do not vanish. -/
theorem layout_eq_written {params after : Params} {rendered : List (Node (.one .entry) × String)}
    (h : InTurn style params rendered after) :
    Layout.group style ((rendered.map Prod.fst).map Node.conjunction) (rendered.map Prod.snd) =
      written style rendered := by
  have hsurvivors : Layout.survivors ((rendered.map Prod.fst).map Node.conjunction)
      (rendered.map Prod.snd) =
      (rendered.filter fun one ↦ !one.1.vanishes).map fun one ↦ (one.1.conjunction, one.2) := by
    rw [Layout.survivors, List.map_map, List.zip_map', List.filter_map]
    refine congrArg _ (List.filter_congr fun one hone ↦ ?_)
    simp only [Function.comp_apply, h.isEmpty_eq one hone]
  have hline : (Layout.entryLine style ∘ fun one ↦ (one.1.conjunction, one.2)) =
      laterLine style := by
    funext one
    rw [Function.comp_apply, laterLine]
    cases one.1.conjunction <;> rfl
  rw [Layout.group, hsurvivors, written]
  cases rendered.filter fun one ↦ !one.1.vanishes with
  | nil => rfl
  | cons first rest => simp only [List.map_cons, List.map_map, hline]

/-- The run of a group: its entries are rendered in turn, and its text is what is written of
them. -/
theorem render_eq_ok_iff {group : Group} {params after : Params} {text? : Option String} :
    Group.render style group params = .ok text? after ↔
      ∃ rendered, rendered.map Prod.fst = group.toList ∧ InTurn style params rendered after ∧
        text? = written style rendered := by
  have hlayout {rendered : List (Node (.one .entry) × String)}
      (hentries : rendered.map Prod.fst = group.toList) (hturn : InTurn style params rendered after) :
      Layout.group style group.conjunctions (rendered.map Prod.snd) = written style rendered := by
    rw [Node.conjunctions, ← hentries, layout_eq_written hturn]
  rw [Group.render, map_eq_ok_iff]
  constructor
  · rintro ⟨texts, hrender, rfl⟩
    obtain ⟨rendered, hentries, rfl, hturn⟩ := (render_entries_eq_ok_iff group).mp hrender
    exact ⟨rendered, hentries, hturn, hlayout hentries hturn⟩
  · rintro ⟨rendered, hentries, hturn, rfl⟩
    exact ⟨_, (render_entries_eq_ok_iff group).mpr ⟨rendered, hentries, rfl, hturn⟩,
      hlayout hentries hturn⟩

theorem vanishes_iff : ∀ {group : Group}, group.vanishes ↔ ∀ entry ∈ group.toList, entry.vanishes
  | .nil => ⟨fun _ ↦ nofun, fun _ ↦ rfl⟩
  | .cons first rest => by
    rw [Node.vanishes, Bool.and_eq_true, Node.toList_cons, List.forall_mem_cons,
      @vanishes_iff rest]

theorem eq_none_iff_of_render {group : Group} {params after : Params} {text? : Option String}
    (h : Group.render style group params = .ok text? after) :
    text? = none ↔ ∀ entry ∈ group.toList, entry.vanishes := by
  obtain ⟨texts, htexts, rfl⟩ := map_eq_ok_iff.mp h
  rw [← vanishes_iff, ← Node.isNone_group_of_render htexts, Option.isNone_iff_eq_none]

end Group

/-! ## Clauses for groups -/

/-- The texts of the parts of a statement, which are rendered in turn: each part goes on from the
parameters that those before it leave. A group is rendered as it is where it stands alone. -/
structure Clauses.InTurn (style : Style) (clauses : Clauses) (params after : Params) extends
    Layout.Sections where
  afterHead : Params
  afterSource : Params
  afterJoins : Params
  afterFilter : Params
  afterKeys : Params
  afterHaving : Params
  render_head : (Node.renderHead style clauses.attributes.head
    (Node.render style clauses.columns)).run params = .ok head afterHead
  render_source : (Node.render style clauses.source).run afterHead = .ok (some source) afterSource
  render_joins : (Node.render style clauses.joins).run afterSource = .ok joins afterJoins
  render_filter : (Group.render style clauses.filter).run afterJoins = .ok filter afterFilter
  render_groupKeys : (Node.render style clauses.groupKeys).run afterFilter =
    .ok groupKeys afterKeys
  render_having : (Group.render style clauses.having).run afterKeys = .ok having afterHaving
  render_orderings : (Node.render style clauses.orderings).run afterHaving = .ok orderings after

namespace Clauses

/-- The text that sections make up. For a group, the keyword is there exactly if its text is. -/
def textOfSections (style : Style) (sections : Layout.Sections) (attributes : Attributes) :
    String :=
  sections.head ++
    "\nFROM\n" ++ style.indent ++ sections.source ++
    String.join (sections.joins.map ("\n" ++ ·)) ++
    sections.filter.elim "" ("\nWHERE\n" ++ style.indent ++ ·) ++
    (if sections.groupKeys.isEmpty then ""
      else "\nGROUP BY\n" ++ style.indent ++ ",".intercalate sections.groupKeys) ++
    sections.having.elim "" ("\nHAVING\n" ++ style.indent ++ ·) ++
    (if sections.orderings.isEmpty then ""
      else "\nORDER BY\n" ++ ",\n".intercalate (sections.orderings.map (style.indent ++ ·))) ++
    attributes.limit.elim "" ("\nLIMIT " ++ toString ·) ++
    attributes.offset.elim "" ("\nOFFSET " ++ toString ·)

theorem join_optional {α : Type} (content : Option α) (layout : α → String) :
    String.join ((content.map layout).toList.map ("\n" ++ ·)) =
      content.elim "" fun one ↦ "\n" ++ layout one := by
  cases content <;> simp

theorem join_listed (items : List String) (body : String) :
    String.join ((if items.isEmpty then [] else [body]).map ("\n" ++ ·)) =
      if items.isEmpty then "" else "\n" ++ body := by
  cases items <;> simp

theorem layout_eq_textOfSections (style : Style) (sections : Layout.Sections)
    (attributes : Attributes) :
    Layout.select style sections attributes = textOfSections style sections attributes := by
  have hfrom : "\nFROM\n" = "\n" ++ ("FROM" ++ "\n") := by decide
  have hwhere : "\nWHERE\n" = "\n" ++ ("WHERE" ++ "\n") := by decide
  have hgroupBy : "\nGROUP BY\n" = "\n" ++ ("GROUP BY" ++ "\n") := by decide
  have hhaving : "\nHAVING\n" = "\n" ++ ("HAVING" ++ "\n") := by decide
  have horderBy : "\nORDER BY\n" = "\n" ++ ("ORDER BY" ++ "\n") := by decide
  have hlimit : "\nLIMIT " = "\n" ++ "LIMIT " := by decide
  have hoffset : "\nOFFSET " = "\n" ++ "OFFSET " := by decide
  rw [Layout.select, Layout.sectionTexts, textOfSections]
  simp only [List.cons_append, List.nil_append, Reference.intercalate_cons, List.map_cons,
    List.map_append, String.join_cons, String.join_append, join_optional, join_listed]
  simp only [Layout.titled, Layout.groupKeys, Layout.orderings, Layout.lines, String.append_assoc,
    hfrom, hwhere, hgroupBy, hhaving, horderBy, hlimit, hoffset]

variable {style : Style} {clauses : Clauses} {params after : Params}

theorem render_eq_ok_iff {text : String} :
    Node.render style (Select.ofClauses clauses) params = .ok text after ↔
      ∃ turn : clauses.InTurn style params after,
        text = textOfSections style turn.toSections clauses.attributes := by
  obtain ⟨columns, source, joins, filter, groupKeys, having, orderings, attributes⟩ := clauses
  cases source with
  | absent =>
    refine ⟨nofun, ?_⟩
    rintro ⟨turn, -⟩
    cases turn.render_source
  | present source =>
    simp only [Select.ofClauses, Node.render, bind_eq_ok_iff]
    constructor
    · rintro ⟨head, _, hhead, source, _, hsource, joins, _, hjoins, filterTexts, _, hfilter,
        groupKeys, _, hgroupKeys, havingTexts, _, hhaving, orderings, _, horderings, ⟨⟩⟩
      refine ⟨⟨⟨head, source, joins, _, groupKeys, _, orderings⟩, _, _, _, _, _, _, hhead, ?_,
        hjoins, map_eq_ok_iff.mpr ⟨filterTexts, hfilter, rfl⟩, hgroupKeys,
        map_eq_ok_iff.mpr ⟨havingTexts, hhaving, rfl⟩, horderings⟩, ?_⟩
      · exact bind_eq_ok_iff.mpr ⟨source, _, hsource, rfl⟩
      · exact layout_eq_textOfSections style _ attributes
    · rintro ⟨turn, rfl⟩
      obtain ⟨source, _, hsource, hsome⟩ := bind_eq_ok_iff.mp turn.render_source
      obtain ⟨filterTexts, hfilter, hfilterText⟩ := map_eq_ok_iff.mp turn.render_filter
      obtain ⟨havingTexts, hhaving, hhavingText⟩ := map_eq_ok_iff.mp turn.render_having
      cases hsome
      refine ⟨turn.head, _, turn.render_head, turn.source, _, hsource, turn.joins, _,
        turn.render_joins, filterTexts, _, hfilter, turn.groupKeys, _, turn.render_groupKeys,
        havingTexts, _, hhaving, turn.orderings, _, turn.render_orderings, ?_⟩
      rw [hfilterText, hhavingText, layout_eq_textOfSections]
      rfl

end Clauses

/-- A group has the text of its entries that do not vanish. To drop entries that do, or to change
the conjunction before the first that is left, has no effect on any rendering. In a statement,
WHERE and HAVING stand before the texts of its groups, each exactly if its group has entries that
do not vanish. -/
theorem groups_write_what_does_not_vanish (style : Style) :
    (∀ (group : Group) (params after : Params) (text? : Option String),
      (Group.render style group).run params = .ok text? after ↔
        ∃ rendered, rendered.map Prod.fst = group.toList ∧
          Group.InTurn style params rendered after ∧ text? = Group.written style rendered ∧
          (text? = none ↔ ∀ entry ∈ group.toList, entry.vanishes)) ∧
    (∀ entry : Node (.one .entry), entry.vanishes → ∀ params,
      (Node.render style entry).run params = .ok "" params) ∧
    (∀ part other, Relation.ReflTransGen Part.Retouched part other → ∀ params,
      (part.render style).run params = (other.render style).run params) ∧
    ∀ (clauses : Clauses) (params after : Params) (text : String),
      (Node.render style (Select.ofClauses clauses)).run params = .ok text after ↔
        ∃ turn : clauses.InTurn style params after,
          text = Clauses.textOfSections style turn.toSections clauses.attributes ∧
          (turn.filter = none ↔ ∀ entry ∈ clauses.filter.toList, entry.vanishes) ∧
          (turn.having = none ↔ ∀ entry ∈ clauses.having.toList, entry.vanishes) := by
  refine ⟨?_, ?_, ?_, ?_⟩
  · intro group params after text?
    constructor
    · intro hrender
      obtain ⟨rendered, hentries, hturn, htext⟩ := Group.render_eq_ok_iff.mp hrender
      exact ⟨rendered, hentries, hturn, htext, Group.eq_none_iff_of_render hrender⟩
    · rintro ⟨rendered, hentries, hturn, htext, -⟩
      exact Group.render_eq_ok_iff.mpr ⟨rendered, hentries, hturn, htext⟩
  · intro entry hentry params
    exact Group.render_of_vanishes hentry params
  · intro part other hretouched params
    rw [Part.render_eq_of_retouched style hretouched]
  · intro clauses params after text
    constructor
    · intro hrender
      obtain ⟨turn, htext⟩ := Clauses.render_eq_ok_iff.mp hrender
      exact ⟨turn, htext, Group.eq_none_iff_of_render turn.render_filter,
        Group.eq_none_iff_of_render turn.render_having⟩
    · rintro ⟨turn, htext, -⟩
      exact Clauses.render_eq_ok_iff.mpr ⟨turn, htext⟩

/-- Two entries are dropped, and the conjunction before the first that is written is changed. -/
theorem groups_write_what_does_not_vanish_between_two :
    let empty : Node (.one .entry) := .nested .or .nil
    let blank : Node (.one .entry) := .single .and (.standalone (.raw ""))
    let first (conjunction : Conjunction) : Node (.one .entry) :=
      .single conjunction (.paired (.name "a") (.compareValue .gt (.int 3)))
    let last : Node (.one .entry) := .single .or (.standalone (.raw "b"))
    let part : Part := .group (.ofList [empty, first .or, blank, last])
    let other : Part := .group (.ofList [first .and, last])
    let params := Params.empty .questionMark
    Relation.ReflTransGen Part.Retouched part other ∧
      (part.render default).run params =
        .ok (some "(\x60a\x60 > ?)\n  OR b") (params.append [.int 3]) ∧
      (Node.render default blank).run params = .ok "" params := by
  intro empty blank first last part other params
  have hempty : Part.Retouched part (.group (.ofList [first .or, blank, last])) :=
    .group (.dropped [] [first .or, blank, last] rfl)
  have hfirst : Part.Retouched (.group (.ofList [first .or, blank, last]))
      (.group (.ofList [first .and, blank, last])) :=
    .group (.reconjoined [] [blank, last] .and nofun (by decide))
  have hblank : Part.Retouched (.group (.ofList [first .and, blank, last])) other :=
    .group (.dropped [first .and] [last] rfl)
  have hretouched : Relation.ReflTransGen Part.Retouched part other :=
    ((Relation.ReflTransGen.single hempty).tail hfirst).tail hblank
  obtain ⟨-, hvanishing, hsame, -⟩ := groups_write_what_does_not_vanish default
  exact ⟨hretouched, (hsame part other hretouched params).trans rfl, hvanishing blank rfl params⟩

end SqlSelect
