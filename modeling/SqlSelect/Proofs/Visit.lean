import SqlSelect.Proofs.Refinement
import SqlSelect.Proofs.Vanishing

/-!
# What a rendering meets

A visit lists what is met on the way through a tree: the literals, and the faults
for which there is no text. Rendering binds the literals up to the first fault and
fails with it. Neither the style nor the values have a part in it.
-/

namespace SqlSelect

inductive Event where
  | literal (value : Value)
  | fault (error : BuildError)
deriving DecidableEq, Repr

abbrev Visit := List Event

namespace Visit

/-- The literals before the first fault. -/
def bound : Visit → List Value
  | [] => []
  | .literal value :: rest => value :: bound rest
  | .fault _ :: _ => []

def fault? : Visit → Option BuildError
  | [] => none
  | .literal _ :: rest => fault? rest
  | .fault error :: _ => some error

def ofValues (values : List Value) : Visit :=
  values.map .literal

@[simp] theorem bound_nil : bound [] = [] :=
  rfl

@[simp] theorem fault?_nil : fault? [] = none :=
  rfl

@[simp] theorem bound_fault (error : BuildError) : bound [.fault error] = [] :=
  rfl

@[simp] theorem fault?_fault (error : BuildError) : fault? [.fault error] = some error :=
  rfl

@[simp] theorem bound_ofValues (values : List Value) : bound (ofValues values) = values := by
  induction values with
  | nil => rfl
  | cons value rest ih => exact congrArg (value :: ·) ih

@[simp] theorem fault?_ofValues (values : List Value) : fault? (ofValues values) = none := by
  induction values with
  | nil => rfl
  | cons value rest ih => exact ih

@[simp] theorem fault?_append (first second : Visit) :
    fault? (first ++ second) = (fault? first).or (fault? second) := by
  induction first with
  | nil => rfl
  | cons event rest ih =>
    cases event with
    | literal value => exact ih
    | fault error => rfl

theorem bound_append_of_fault {first : Visit} (second : Visit) {error : BuildError}
    (h : fault? first = some error) : bound (first ++ second) = bound first := by
  induction first with
  | nil => nomatch h
  | cons event rest ih =>
    cases event with
    | literal value => exact congrArg (value :: ·) (ih h)
    | fault error => rfl

theorem bound_append_of_no_fault {first : Visit} (second : Visit) (h : fault? first = none) :
    bound (first ++ second) = bound first ++ bound second := by
  induction first with
  | nil => rfl
  | cons event rest ih =>
    cases event with
    | literal value => exact congrArg (value :: ·) (ih h)
    | fault error => nomatch h

end Visit

/-! ## Visiting a node -/

def visitList (op : Operator) (values : List Value) : Visit :=
  match op, values with
  | .isIn, [] | .notIn, [] => [.fault (.emptyValueList op)]
  | .isIn, values | .notIn, values => .ofValues values
  | .between, [lower, upper] => .ofValues [lower, upper]
  | .between, values => [.fault (.betweenArity values.length)]
  | op, _ => [.fault (.listValueNotSupported op)]

namespace Node

/-- What is met in a node, from left to right. A fault that is found before the parts of a node
are rendered stands for the whole node; that a CASE asks for a group without text is found only
after the group. -/
def visit : {kind : Kind} → Node kind → Visit
  | _, name _ | _, verbatim _ | _, nullTest _ | _, raw _ | _, namedTable _ _ => []
  | _, computed value => visit value
  | _, subquery query => visit query
  | _, inline field => visit field
  | _, literal value => .ofValues [value]
  | _, compareValue op value =>
    if op.takesList then [.fault (.listValueRequired op)] else .ofValues [value]
  | _, compareList op values => visitList op values
  | _, compareField op field =>
    if fieldAllowed op field then visit field else [.fault (.listValueRequired op)]
  | _, compareExpr op value =>
    if op.takesList then [.fault (.listValueRequired op)] else visit value
  | _, existsTest query _ => visit query
  | _, caseWhen first rest otherwise => visit first ++ (visit rest ++ visit otherwise)
  | _, coalesce arguments =>
    if arguments.isEmpty then [.fault .emptyCoalesce] else visit arguments
  | _, jsonObject members => visit members
  | _, jsonArray element => visit element
  | _, paired field assertion => visit field ++ visit assertion
  | _, standalone value => visit value
  | _, single _ condition => visit condition
  | _, nested _ group => visit group
  | _, compareTest field assertion => visit field ++ visit assertion
  | _, conditionTest condition => visit condition
  | _, groupTest group =>
    visit group ++ if vanishes group then [.fault .emptyCaseCondition] else []
  | _, branch test result => visit test ++ visit result
  | _, member _ value => visit value
  | _, column field _ => visit field
  | _, derivedTable query _ => visit query
  | _, join _ table _ => visit table
  | _, ordering field _ => visit field
  | _, select _ absent _ _ _ _ _ _ => [.fault .tableNotSet]
  | _, select columns (present source) joins filter groupKeys having orderings attributes =>
    (if attributes.head.isSome then [] else visit columns) ++
      (visit source ++ (visit joins ++ (visit filter ++ (visit groupKeys ++
        (visit having ++ visit orderings)))))
  | _, nil => []
  | _, cons first rest => visit first ++ visit rest
  | _, absent => []
  | _, present node => visit node

end Node

/-! ## Rendering follows the visit -/

/-- The reason of a failure, if it is one, and the parameters left in any case. -/
def conclusion {α : Type} : EStateM.Result BuildError Params α → Option BuildError × Params
  | .ok _ after => (none, after)
  | .error error after => (some error, after)

/-- A rendering binds the literals of a visit up to the first fault, and fails with that. -/
def Follows {α : Type} (rendering : Rendering α) (visit : Visit) : Prop :=
  ∀ params, conclusion (rendering params) = (visit.fault?, params.append visit.bound)

namespace Follows

variable {α β : Type} {first : Rendering α} {next : α → Rendering β} {visit nextVisit : Visit}

theorem pure (result : α) : Follows (Pure.pure result : Rendering α) [] := by
  intro params
  simp [conclusion, Pure.pure, EStateM.pure]

theorem throw (error : BuildError) :
    Follows (MonadExcept.throw error : Rendering α) [.fault error] := by
  intro params
  change (some error, params) = (some error, params.append [])
  rw [Params.append_nil]

/-- What comes next is visited only if no fault is met before. -/
theorem bind (hfirst : Follows first visit)
    (hnext : ∀ params result after, first params = .ok result after →
      Follows (next result) nextVisit) :
    Follows (first >>= next) (visit ++ nextVisit) := by
  intro params
  have hconclusion := hfirst params
  change conclusion (EStateM.bind first next params) = _
  unfold EStateM.bind
  cases hresult : first params with
  | ok result after =>
    rw [hresult] at hconclusion
    obtain ⟨hfault, hafter⟩ := Prod.mk.inj hconclusion
    rw [hnext params result after hresult after, hafter, Params.append_append,
      Visit.bound_append_of_no_fault _ hfault.symm, Visit.fault?_append, ← hfault]
    rfl
  | error error after =>
    rw [hresult] at hconclusion
    obtain ⟨hfault, hafter⟩ := Prod.mk.inj hconclusion
    rw [Visit.fault?_append, ← hfault, Visit.bound_append_of_fault _ hfault.symm, ← hafter]
    rfl

theorem map {layout : α → β} (hfirst : Follows first visit) :
    Follows (layout <$> first) visit := by
  intro params
  have hconclusion := hfirst params
  change conclusion (EStateM.map layout first params) = _
  unfold EStateM.map
  cases hresult : first params <;> rw [hresult] at hconclusion <;> exact hconclusion

/-- Putting the text together meets nothing more. -/
theorem finish {layout : α → β} (hfirst : Follows first visit) :
    Follows (do let result ← first; return layout result) visit := by
  have hbind := hfirst.bind fun _ result _ _ ↦ Follows.pure (layout result)
  rwa [List.append_nil] at hbind

theorem of_finish {layout : α → β}
    (h : Follows (do let result ← first; return layout result) visit) : Follows first visit := by
  intro params
  have hconclusion := h params
  change conclusion (EStateM.bind first (fun result ↦ Pure.pure (layout result)) params) = _
    at hconclusion
  unfold EStateM.bind at hconclusion
  cases hresult : first params <;> rw [hresult] at hconclusion <;> exact hconclusion

end Follows

theorem bindValue_follows (value : Value) : Follows (bindValue value) (.ofValues [value]) := by
  intro params
  rw [bindValue_apply]
  rfl

theorem bindValues_follows (values : List Value) :
    Follows (bindValues values) (.ofValues values) := by
  intro params
  rw [bindValues_apply]
  simp [conclusion]

namespace Node

theorem renderList_follows (op : Operator) (values : List Value) :
    Follows (renderList op values) (visitList op values) := by
  unfold renderList visitList
  cases op with
  | isIn | notIn =>
    cases values with
    | nil => exact .throw _
    | cons value rest => exact (bindValues_follows (value :: rest)).finish
  | between =>
    match values with
    | [] | [_] | _ :: _ :: _ :: _ => exact .throw _
    | [lower, upper] =>
      exact (bindValue_follows lower).bind fun _ _ _ _ ↦ (bindValue_follows upper).finish
  | _ => exact .throw _

theorem renderHead_follows (style : Style) (given : Option String)
    {columns : Rendering (List String)} {visit : Visit} (hcolumns : Follows columns visit) :
    Follows (renderHead style given columns) (if given.isSome then [] else visit) := by
  cases given with
  | some text => exact .pure text
  | none => exact hcolumns.finish

/-- Whether a group that was rendered has text does not depend on what was bound before. -/
theorem isNone_group_of_render {style : Style} {entries : Group} {params after : Params}
    {texts : List String} (h : render style entries params = .ok texts after) :
    (Layout.group style entries.conjunctions texts).isNone = vanishes entries := by
  obtain ⟨documents, hdocuments, htexts, -⟩ :=
    ((render_delivers style entries params).eq_ok_iff texts after).mp h
  have hvanishes := isNone_group_document style entries documents hdocuments
  rw [htexts, Kind.write_many, ← Reference.write_group, Option.isNone_map, hvanishes]

theorem render_follows (style : Style) {kind : Kind} (node : Node kind) :
    Follows (render style node) (visit node) := by
  induction node with
  | name path => exact .pure _
  | verbatim sql => exact .pure _
  | computed value ih => exact ih
  | subquery query ih => exact ih.finish
  | inline field ih => exact ih
  | literal value => exact bindValue_follows value
  | compareValue op value =>
    rw [render, visit]
    split
    · exact .throw _
    · exact (bindValue_follows value).finish
  | compareList op values => exact renderList_follows op values
  | compareField op field ih =>
    rw [render, visit]
    split
    · exact ih.finish
    · exact .throw _
  | compareExpr op value ih =>
    rw [render, visit]
    split
    · exact .throw _
    · exact ih.finish
  | nullTest negated => exact .pure _
  | existsTest query negated ih => exact ih.finish
  | caseWhen first rest otherwise ihFirst ihRest ihOtherwise =>
    exact ihFirst.bind fun _ _ _ _ ↦ ihRest.bind fun _ _ _ _ ↦ ihOtherwise.finish
  | coalesce arguments ih =>
    rw [render, visit]
    split
    · exact .throw _
    · exact ih.finish
  | jsonObject members ih => exact ih.finish
  | jsonArray element ih => exact ih.finish
  | raw sql => exact .pure _
  | paired field assertion ihField ihAssertion =>
    exact ihField.bind fun _ _ _ _ ↦ ihAssertion.finish
  | standalone value ih => exact ih
  | single conjunction condition ih => exact ih
  | nested conjunction group ih => exact ih.finish
  | compareTest field assertion ihField ihAssertion =>
    exact ihField.bind fun _ _ _ _ ↦ ihAssertion.finish
  | conditionTest condition ih => exact ih
  | groupTest group ih =>
    rw [render, visit]
    refine ih.bind fun params texts after htexts ↦ ?_
    have hnone := isNone_group_of_render htexts
    cases hgroup : Layout.group style group.conjunctions texts with
    | some text =>
      rw [hgroup] at hnone
      rw [← hnone]
      exact .pure text
    | none =>
      rw [hgroup] at hnone
      rw [← hnone]
      exact .throw _
  | branch test result ihTest ihResult => exact ihTest.bind fun _ _ _ _ ↦ ihResult.finish
  | member key value ih => exact ih.finish
  | column field label ih => exact ih.finish
  | namedTable table label => exact .pure _
  | derivedTable query label ih => exact ih.finish
  | join kind table condition ih => exact ih.finish
  | ordering field direction ih => exact ih.finish
  | select columns source joins filter groupKeys having orderings attributes ihColumns ihSource
      ihJoins ihFilter ihGroupKeys ihHaving ihOrderings =>
    cases source with
    | absent => exact .throw _
    | present source =>
      have hsource : Follows (render style source) (visit source) := ihSource.of_finish
      rw [render, visit]
      exact (renderHead_follows style _ ihColumns).bind fun _ _ _ _ ↦
        hsource.bind fun _ _ _ _ ↦ ihJoins.bind fun _ _ _ _ ↦ ihFilter.bind fun _ _ _ _ ↦
        ihGroupKeys.bind fun _ _ _ _ ↦ ihHaving.bind fun _ _ _ _ ↦ ihOrderings.finish
  | nil => exact .pure _
  | cons first rest ihFirst ihRest => exact ihFirst.bind fun _ _ _ _ ↦ ihRest.finish
  | absent => exact .pure _
  | present node ih => exact ih.finish

end Node

end SqlSelect
