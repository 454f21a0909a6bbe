import SqlSelect.Proofs.IllFormed

/-!
# What a style can change

A style reaches the text and nothing else. What is bound, whether a rendering fails
and whether a group has a text at all can be told from the tree, so two styles agree
in them. In the text itself two styles differ only by the indent, by the quotes and
by the names of the JSON functions: the flavor has been resolved to these before, and
the style of the placeholders is that of the parameters.
-/

namespace SqlSelect

/-- The styles agree in everything that stands in a text. -/
structure Style.LooksLike (style other : Style) : Prop where
  indent_eq : style.indent = other.indent
  quoting_eq : style.quoting = other.quoting
  jsonObjectFunction_eq : style.jsonObjectFunction = other.jsonObjectFunction
  jsonArrayFunction_eq : style.jsonArrayFunction = other.jsonArrayFunction

/-! ## Styles that look alike -/

namespace Style.LooksLike

variable {style other : Style} (h : style.LooksLike other)
include h

theorem identifier_eq : style.identifier = other.identifier := by
  funext name
  rw [identifier, identifier, h.quoting_eq]

theorem aliasSuffix_eq : Layout.aliasSuffix style = Layout.aliasSuffix other := by
  funext label
  cases label with
  | none => rfl
  | some label => rw [Layout.aliasSuffix, Layout.aliasSuffix, h.identifier_eq]

theorem group_eq : Layout.group style = Layout.group other := by
  have hline : Layout.entryLine style = Layout.entryLine other := by
    funext entry
    rw [Layout.entryLine, Layout.entryLine, h.indent_eq]
  funext conjunctions entries
  rw [Layout.group, Layout.group, hline]

theorem lines_eq : Layout.lines style = Layout.lines other := by
  funext items
  rw [Layout.lines, Layout.lines, h.indent_eq]

theorem columns_eq : Layout.columns style = Layout.columns other := by
  funext items
  rw [Layout.columns, Layout.columns, h.indent_eq, h.lines_eq]

theorem orderings_eq : Layout.orderings style = Layout.orderings other :=
  h.lines_eq

theorem select_eq : Layout.select style = Layout.select other := by
  funext sections attributes
  rw [Layout.select, Layout.select, Layout.sectionTexts, Layout.sectionTexts, h.indent_eq,
    h.orderings_eq]

theorem renderHead_eq (given : Option String) (columns : Rendering (List String)) :
    Node.renderHead style given columns = Node.renderHead other given columns := by
  cases given with
  | some text => rfl
  | none => simp only [Node.renderHead, h.columns_eq]

end Style.LooksLike

theorem Node.render_congr {style other : Style} (h : style.LooksLike other) {kind : Kind}
    (node : Node kind) : render style node = render other node := by
  induction node with
  | name path => simp only [render, h.identifier_eq]
  | verbatim _ | literal _ | compareValue _ _ | compareList _ _ | nullTest _ | raw _ | nil
    | absent => rfl
  | computed _ ih | inline _ ih | standalone _ ih | single _ _ ih | conditionTest _ ih => exact ih
  | subquery _ ih | compareField _ _ ih | compareExpr _ _ ih | existsTest _ _ ih | coalesce _ ih
    | member _ _ ih | join _ _ _ ih | ordering _ _ ih | present _ ih => simp only [render, ih]
  | caseWhen _ _ _ ihFirst ihRest ihOtherwise => simp only [render, ihFirst, ihRest, ihOtherwise]
  | jsonObject _ ih => simp only [render, ih, h.jsonObjectFunction_eq]
  | jsonArray _ ih => simp only [render, ih, h.jsonArrayFunction_eq]
  | paired _ _ ihLeft ihRight | compareTest _ _ ihLeft ihRight | branch _ _ ihLeft ihRight
    | cons _ _ ihLeft ihRight => simp only [render, ihLeft, ihRight]
  | nested _ _ ih | groupTest _ ih => simp only [render, ih, h.group_eq]
  | column _ _ ih | derivedTable _ _ ih => simp only [render, ih, h.aliasSuffix_eq]
  | namedTable _ _ => simp only [render, h.identifier_eq, h.aliasSuffix_eq]
  | select columns source joins filter groupKeys having orderings attributes ihColumns ihSource
      ihJoins ihFilter ihGroupKeys ihHaving ihOrderings =>
    cases source with
    | absent => rfl
    | present source =>
      have hsource : render style source = render other source := eq_of_return_some ihSource
      simp only [render, hsource, ihColumns, ihJoins, ihFilter, ihGroupKeys, ihHaving, ihOrderings,
        h.renderHead_eq, h.group_eq, h.select_eq]

theorem Part.render_congr {style other : Style} (h : style.LooksLike other) (part : Part) :
    part.render style = part.render other := by
  have hnode {kind : Kind} (node : Node kind) := Node.render_congr h node
  cases part with
  | piece one =>
    cases one <;>
      simp only [render, Piece.render, hnode, h.columns_eq, h.orderings_eq]
  | group entries => simp only [render, Group.render, hnode, h.group_eq]

/-! ## What no style can change -/

namespace Part

/-- Whether the part is a group without text. -/
def vanishes : Part → Bool
  | piece _ => false
  | group entries => entries.vanishes

theorem isNone_of_render {style : Style} {part : Part} {params after : Params}
    {text? : Option String} (h : part.render style params = .ok text? after) :
    text?.isNone = part.vanishes := by
  cases part with
  | piece one =>
    obtain ⟨text, -, rfl⟩ := map_eq_ok_iff.mp h
    rfl
  | group entries =>
    obtain ⟨texts, htexts, rfl⟩ := map_eq_ok_iff.mp h
    exact Node.isNone_group_of_render htexts

/-- That there is no text is said by the tree alone. -/
theorem exists_render_eq_none_iff (style : Style) (part : Part) (params : Params) :
    (∃ after, (part.render style).run params = .ok none after) ↔
      part.visit.fault? = none ∧ part.vanishes := by
  have hconclusion := part.render_follows style params
  constructor
  · rintro ⟨after, hrender⟩
    have hrun : part.render style params = .ok none after := hrender
    rw [hrun] at hconclusion
    exact ⟨(Prod.mk.inj hconclusion).1.symm, (isNone_of_render hrun).symm⟩
  · rintro ⟨hfault, hvanishes⟩
    rw [hfault] at hconclusion
    obtain ⟨text?, hrun⟩ := conclusion_eq_none_iff.mp hconclusion
    have hnone := isNone_of_render hrun
    rw [hvanishes, Option.isNone_iff_eq_none] at hnone
    subst hnone
    exact ⟨_, hrun⟩

/-- Under any two styles and from any parameters a rendering fails with the same error or not at
all, binds the same values and gives a group no text in the same cases. Styles that look alike
give the same text from the same parameters. -/
theorem styles_change_only_the_text (part : Part) (style other : Style)
    (params others : Params) :
    (∃ error? values,
      conclusion ((part.render style).run params) = (error?, params.append values) ∧
      conclusion ((part.render other).run others) = (error?, others.append values)) ∧
    ((∃ after, (part.render style).run params = .ok none after) ↔
      ∃ after, (part.render other).run others = .ok none after) ∧
    (style.LooksLike other → (part.render style).run params = (part.render other).run params) := by
  refine ⟨⟨part.visit.fault?, part.visit.bound, ?_, ?_⟩, ?_, ?_⟩
  · exact part.render_follows style params
  · exact part.render_follows other others
  · rw [exists_render_eq_none_iff, exists_render_eq_none_iff]
  · intro hlooks
    rw [part.render_congr hlooks]

/-- Functions and marks named for another flavor than the style says. -/
theorem styles_change_only_the_text_not_by_flavor :
    let other : Style :=
      { (default : Style) with flavor := .sqlite, placeholder := .dollarNumbered }
    let part : Part := .piece (.node (.paired (.computed (.jsonArray (.name "tags")))
      (.compareValue .eq (.int 1))))
    let params := Params.empty .questionMark
    (default : Style).LooksLike other ∧
      (part.render other).run params =
        .ok (some "((JSON_ARRAYAGG(\x60tags\x60)) = ?)") (params.append [.int 1]) := by
  intro other part params
  have hlooks : (default : Style).LooksLike other := ⟨rfl, rfl, rfl, rfl⟩
  obtain ⟨-, -, hsame⟩ := styles_change_only_the_text part default other params params
  exact ⟨hlooks, (hsame hlooks).symm.trans rfl⟩

end Part

end SqlSelect
