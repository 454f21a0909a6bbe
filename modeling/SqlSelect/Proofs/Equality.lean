import Mathlib.Data.List.Forall2
import SqlSelect.Select
import SqlSelect.Proofs.Indistinguishable

/-!
# Equal parts are rendered alike

Equality of literals is not identity: one instant can be read on two clocks, zero has two
signs, and a number that is no number does not equal itself. So equals cannot be put for
equals. But literals do not reach the text, and what is bound are the literals in their
order, so it is enough that equal nodes hold literals that are equal one by one. Nothing
depends on how two dates are found to be the same instant.
-/

namespace SqlSelect

variable {sameInstant : DateTime → DateTime → Bool}

/-- What is bound for equal literals is equal. -/
theorem Value.normalize_eqv {value other : Value} (h : value.eqv sameInstant other) :
    value.normalize.eqv sameInstant other.normalize := by
  cases value with
  | bool b =>
    cases other with
    | bool c =>
      have hbool : b = c := eq_of_beq h
      rw [hbool]
      exact beq_self_eq_true _
    | _ => cases h
  | _ => cases other <;> first
    | exact h
    | cases h

/-! ## Nodes that agree -/

theorem forall₂_of_isEqv {related : Value → Value → Bool} {values others : List Value}
    (h : values.isEqv others related) :
    List.Forall₂ (fun value other ↦ related value other) values others := by
  induction values generalizing others with
  | nil =>
    cases others with
    | nil => exact .nil
    | cons other others => nomatch h
  | cons value values ih =>
    cases others with
    | nil => nomatch h
    | cons other others =>
      rw [List.isEqv, Bool.and_eq_true] at h
      exact .cons h.1 (ih h.2)

theorem isEqv_of_forall₂ {related : Value → Value → Bool} {values others : List Value}
    (h : List.Forall₂ (fun value other ↦ related value other) values others) :
    values.isEqv others related := by
  induction h with
  | nil => rfl
  | cons hhead _ ih => exact Bool.and_eq_true_iff.mpr ⟨hhead, ih⟩

namespace Node

variable {related : Value → Value → Bool}

/-- Nodes that agree up to a relation hold related literals, one by one. -/
theorem literals_of_agree {kind : Kind} {node other : Node kind} (h : agree related node other) :
    List.Forall₂ (fun value other ↦ related value other) (literals node) (literals other) := by
  induction node with
  | name _ | verbatim _ | nullTest _ | raw _ | namedTable _ _ =>
    cases other <;> first
      | cases h
      | exact .nil
  | nil =>
    cases other with
    | nil => exact .nil
    | cons => cases h
  | absent =>
    cases other with
    | absent => exact .nil
    | present => cases h
  | computed _ ih | subquery _ ih | inline _ ih | coalesce _ ih | jsonObject _ ih | jsonArray _ ih
    | standalone _ ih | conditionTest _ ih | groupTest _ ih | present _ ih =>
    cases other <;> first
      | cases h
      | exact ih h
  | literal value =>
    cases other <;> first
      | cases h
      | exact .cons h .nil
  | compareValue op value =>
    cases other <;> first
      | cases h
      | exact .cons (Bool.and_eq_true_iff.mp h).2 .nil
  | compareList op values =>
    cases other <;> first
      | cases h
      | exact forall₂_of_isEqv (Bool.and_eq_true_iff.mp h).2
  | compareField _ _ ih | compareExpr _ _ ih | single _ _ ih | nested _ _ ih | member _ _ ih =>
    cases other <;> first
      | cases h
      | have hliterals := ih (Bool.and_eq_true_iff.mp h).2
        exact hliterals
  | existsTest _ _ ih | column _ _ ih | derivedTable _ _ ih | ordering _ _ ih =>
    cases other <;> first
      | cases h
      | exact ih (Bool.and_eq_true_iff.mp h).1
  | join _ _ _ ih =>
    cases other with
    | join =>
      simp only [agree, Bool.and_eq_true] at h
      exact ih h.1.2
  | paired _ _ ihLeft ihRight | compareTest _ _ ihLeft ihRight | branch _ _ ihLeft ihRight
    | cons _ _ ihLeft ihRight =>
    cases other <;> first
      | cases h
      | obtain ⟨hleft, hright⟩ := Bool.and_eq_true_iff.mp h
        exact List.rel_append (ihLeft hleft) (ihRight hright)
  | caseWhen first rest otherwise ihFirst ihRest ihOtherwise =>
    cases other with
    | caseWhen first' rest' otherwise' =>
      simp only [agree, Bool.and_eq_true] at h
      obtain ⟨⟨hfirst, hrest⟩, hotherwise⟩ := h
      exact List.rel_append (ihFirst hfirst)
        (List.rel_append (ihRest hrest) (ihOtherwise hotherwise))
    | _ => cases h
  | select columns source joins filter groupKeys having orderings attributes ihColumns ihSource
      ihJoins ihFilter ihGroupKeys ihHaving ihOrderings =>
    cases other with
    | select =>
      simp only [agree, Bool.and_eq_true, beq_iff_eq] at h
      obtain ⟨⟨⟨⟨⟨⟨⟨hcolumns, hsource⟩, hjoins⟩, hfilter⟩, hgroupKeys⟩, hhaving⟩, horderings⟩,
        rfl⟩ := h
      refine List.rel_append ?_ (List.rel_append (ihSource hsource) (List.rel_append
        (ihJoins hjoins) (List.rel_append (ihFilter hfilter) (List.rel_append
          (ihGroupKeys hgroupKeys) (List.rel_append (ihHaving hhaving)
            (ihOrderings horderings))))))
      split
      · exact .nil
      · exact ihColumns hcolumns

/-- Nodes that agree up to a relation agree up to every weaker one. -/
theorem agree_mono {weaker : Value → Value → Bool}
    (hweaker : ∀ value other, related value other → weaker value other) {kind : Kind}
    {node other : Node kind} (h : agree related node other) : agree weaker node other := by
  induction node with
  | nil | absent => exact h
  | compareList op values =>
    cases other <;> first
      | cases h
      | obtain ⟨hop, hvalues⟩ := Bool.and_eq_true_iff.mp h
        have hrelated := (forall₂_of_isEqv hvalues).imp hweaker
        exact Bool.and_eq_true_iff.mpr ⟨hop, isEqv_of_forall₂ hrelated⟩
  | _ => cases other <;> first
      | cases h
      | simp_all only [agree, Bool.and_eq_true, and_self]

/-- The options kept with a statement are compared as they are. -/
theorem options_of_agree {query other : Select} (h : agree related query other) :
    Select.options query = Select.options other := by
  cases query
  cases other
  simp only [agree, Bool.and_eq_true, beq_iff_eq] at h
  exact congrArg Attributes.options h.2

end Node

/-! ## Parts that agree -/

namespace Part

/-- Parts of one kind whose nodes agree up to a relation of literals. -/
inductive Agree (related : Value → Value → Bool) : Part → Part → Prop
  | node {category : Category} {first second : Node (.one category)}
      (h : first.agree related second) : Agree related (piece (.node first)) (piece (.node second))
  | columns {first second : Node (.many .column)} (h : first.agree related second) :
      Agree related (piece (.columns first)) (piece (.columns second))
  | groupKeys {first second : Node (.many .field)} (h : first.agree related second) :
      Agree related (piece (.groupKeys first)) (piece (.groupKeys second))
  | orderings {first second : Node (.many .ordering)} (h : first.agree related second) :
      Agree related (piece (.orderings first)) (piece (.orderings second))
  | group {first second : Group} (h : first.agree related second) :
      Agree related (group first) (group second)

variable {related : Value → Value → Bool} {first second : Part}

theorem Agree.sameShape (h : Agree related first second) : SameShape first second := by
  have hshape {kind : Kind} {node other : Node kind} (hagree : node.agree related other) :
      node.sameShape other :=
    Node.agree_mono (fun _ _ _ ↦ rfl) hagree
  cases h with
  | node h => exact .node (hshape h)
  | columns h => exact .columns (hshape h)
  | groupKeys h => exact .groupKeys (hshape h)
  | orderings h => exact .orderings (hshape h)
  | group h => exact .group (hshape h)

theorem Agree.literals (h : Agree related first second) :
    List.Forall₂ (fun value other ↦ related value other) first.literals second.literals := by
  cases h <;> exact Node.literals_of_agree ‹_›

/-- Equal parts have the same answer, and what they leave bound is equal one by one. -/
theorem render_of_equal (style : Style) (h : Agree (Value.eqv sameInstant) first second)
    {params others : Params} (hplaceholder : params.placeholder = others.placeholder) (hsize : params.size = others.size) :
    answer ((first.render style).run params) = answer ((second.render style).run others) ∧
      ∃ values equals : List Value,
        List.Forall₂ (fun value other ↦ value.eqv sameInstant other) values equals ∧
        leftover ((first.render style).run params) =
          { params with values := params.values ++ values.toArray } ∧
        leftover ((second.render style).run others) =
          { others with values := others.values ++ equals.toArray } := by
  obtain ⟨hanswer, count, hfirst, hsecond, -⟩ :=
    render_sameShape style h.sameShape hplaceholder hsize
  refine ⟨hanswer, (first.literals.take count).map Value.normalize,
    (second.literals.take count).map Value.normalize, ?_, hfirst, hsecond⟩
  rw [List.forall₂_map_left_iff, List.forall₂_map_right_iff]
  exact (List.forall₂_take count h.literals).imp fun _ _ ↦ Value.normalize_eqv

end Part

/-! ## Whole statements -/

/-- Equal statements keep the same options, so they are rendered in the same style. -/
theorem Select.toSqlWith_of_equal {query other : Select} (h : query.eqv sameInstant other)
    (options : Options) :
    (∃ error, query.toSqlWith options = .error error ∧ other.toSqlWith options = .error error) ∨
      ∃ text arguments equals,
        query.toSqlWith options = .ok ⟨text, arguments⟩ ∧
        other.toSqlWith options = .ok ⟨text, equals⟩ ∧
        List.Forall₂ (fun value other ↦ value.eqv sameInstant other) arguments.toList
          equals.toList := by
  have hstyle : query.style options = other.style options := by
    rw [style, style, Node.options_of_agree h]
  let params := Params.empty (query.style options).placeholder
  have hparts := Part.render_of_equal (query.style options) (.node h)
    (rfl : params.placeholder = params.placeholder) rfl
  obtain ⟨hanswer, values, equals, hequal, hquery, hother⟩ := hparts
  simp only [Part.render, Piece.render, answer_map, leftover_map] at hanswer hquery hother
  rw [toSqlWith_eq_prepare, toSqlWith_eq_prepare, renderWith, renderWith, prepare_eq, prepare_eq,
    ← hstyle, hquery, hother, ← map_some_injective hanswer]
  cases answer ((Node.render (query.style options) query).run params) with
  | error error => exact .inl ⟨error, rfl, rfl⟩
  | ok text =>
    refine .inr ⟨text, _, _, rfl, rfl, ?_⟩
    simpa [params, Params.empty] using hequal

/-- Equal parts, rendered from parameters of the same style and number, as equal parameters are,
have the same text or the same error, and what they leave bound is equal one by one. Equal
statements have the same text with equal arguments or the same error, whatever options are given
at the call. This is so for every way to tell whether two dates are the same instant. -/
theorem equality_is_respected (sameInstant : DateTime → DateTime → Bool) :
    (∀ (style : Style) (first second : Part) (params others : Params),
      Part.Agree (Value.eqv sameInstant) first second → params.placeholder = others.placeholder →
      params.size = others.size →
      answer ((first.render style).run params) = answer ((second.render style).run others) ∧
      ∃ values equals : List Value,
        List.Forall₂ (fun value other ↦ value.eqv sameInstant other) values equals ∧
        leftover ((first.render style).run params) =
          { params with values := params.values ++ values.toArray } ∧
        leftover ((second.render style).run others) =
          { others with values := others.values ++ equals.toArray }) ∧
    ∀ (query other : Select) (options : Options), query.eqv sameInstant other →
      (∃ error, query.toSqlWith options = .error error ∧
        other.toSqlWith options = .error error) ∨
      ∃ text arguments equals,
        query.toSqlWith options = .ok ⟨text, arguments⟩ ∧
        other.toSqlWith options = .ok ⟨text, equals⟩ ∧
        List.Forall₂ (fun value other ↦ value.eqv sameInstant other) arguments.toList
          equals.toList := by
  constructor
  · intro style first second params others hequal hplaceholder hsize
    exact Part.render_of_equal style hequal hplaceholder hsize
  · intro query other options hequal
    exact Select.toSqlWith_of_equal hequal options

/-- One instant on two clocks that show the same day, in a statement and in front of a list that
fails. Within one day, the time of the day and the offset decide. -/
theorem equality_is_respected_on_two_clocks :
    let universal (t : DateTime) : Int := t.hour * 3600 + t.minute * 60 + t.second - t.offset
    let sameInstant (t u : DateTime) : Bool :=
      t.year == u.year && t.month == u.month && t.day == u.day && universal t == universal u &&
        t.nanosecond == u.nanosecond
    let early : Value := .datetime ⟨2024, 2, 29, 21, 30, 0, 0, 0⟩
    let late : Value := .datetime ⟨2024, 2, 29, 23, 30, 0, 0, 7200⟩
    let failing (value : Value) : Part := .piece (.node (.paired
      (.computed (.coalesce (.cons (.literal value) .nil))) (.compareList .isIn [])))
    let query (value : Value) : Select :=
      .select .nil (.present (.namedTable "t" none)) .nil
        (.cons (.single .and (.paired (.name "at") (.compareValue .le value))) .nil)
        .nil .nil .nil {}
    let text := "SELECT\n  *\nFROM\n  \x60t\x60\nWHERE\n  (\x60at\x60 <= ?)"
    early ≠ late ∧
      Part.Agree (Value.eqv sameInstant) (failing early) (failing late) ∧
      answer (((failing late).render default).run default) = .error (.emptyValueList .isIn) ∧
      (query early).eqv sameInstant (query late) ∧
      (query early).toSqlWith Options.empty = .ok ⟨text, #[early]⟩ ∧
      ∃ equals, (query late).toSqlWith Options.empty = .ok ⟨text, equals⟩ ∧
        List.Forall₂ (fun value other ↦ value.eqv sameInstant other) [early] equals.toList := by
  intro universal sameInstant early late failing query text
  have hfailing : Part.Agree (Value.eqv sameInstant) (failing early) (failing late) :=
    .node (by decide)
  have hquery : (query early).eqv sameInstant (query late) := by decide
  have hearly : (query early).toSqlWith Options.empty = .ok ⟨text, #[early]⟩ := by
    dsimp only [query, early, text]
    rfl
  obtain ⟨hparts, hqueries⟩ := equality_is_respected sameInstant
  refine ⟨by decide, hfailing, ?_, hquery, hearly, ?_⟩
  · have hanswer := (hparts default _ _ default default hfailing rfl rfl).1
    exact hanswer.symm.trans rfl
  · rcases hqueries _ _ Options.empty hquery with ⟨error, herror, -⟩ | htexts
    · rw [hearly] at herror
      cases herror
    · obtain ⟨_, _, equals, hfirst, hsecond, hequal⟩ := htexts
      cases hearly.symm.trans hfirst
      exact ⟨equals, hsecond, hequal⟩

end SqlSelect
