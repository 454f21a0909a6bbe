import SqlSelect.Proofs.Indistinguishable

/-!
# The first ill-formed place

On its way through a tree a rendering stops at the literals, which it binds, and at
the nodes that may be ill-formed in themselves. It fails at the first stop that is
ill-formed, and the parameters then hold the literals passed before.
-/

namespace SqlSelect

namespace Node

/-- What is wrong with a node as such, whatever may be wrong in its parts. -/
def fault? : {kind : Kind} → Node kind → Option BuildError
  | _, select _ absent _ _ _ _ _ _ => some .tableNotSet
  | _, compareValue op _ | _, compareExpr op _ =>
    if op ∈ [.isIn, .notIn, .between] then some (.listValueRequired op) else none
  | _, compareField op field =>
    if op = .between ∨ op ∈ [.isIn, .notIn] ∧ ¬field.isSubquery then some (.listValueRequired op)
    else none
  | _, compareList op values =>
    if op ∈ [.isIn, .notIn] then
      if values = [] then some (.emptyValueList op) else none
    else if op = .between then
      if values.length = 2 then none else some (.betweenArity values.length)
    else some (.listValueNotSupported op)
  | _, coalesce arguments => if arguments.toList = [] then some .emptyCoalesce else none
  | _, groupTest group => if vanishes group then some .emptyCaseCondition else none
  | _, _ => none

end Node

/-- A literal that is bound, or a node that is checked. -/
inductive Stop where
  | literal (value : Value)
  | check {kind : Kind} (node : Node kind)

namespace Stop

def fault? : Stop → Option BuildError
  | literal _ => none
  | check node => node.fault?

/-- The literals among the stops. -/
def literals : List Stop → List Value
  | [] => []
  | literal value :: rest => value :: literals rest
  | check _ :: rest => literals rest

end Stop

namespace Node

/-- All stops in a tree, in the order in which a rendering without faults comes to them. A node
is checked before its parts, except that a group after WHEN is checked after its entries. -/
def stops : {kind : Kind} → Node kind → List Stop
  | _, name _ | _, verbatim _ | _, nullTest _ | _, raw _ | _, namedTable _ _ => []
  | _, computed value => stops value
  | _, subquery query => stops query
  | _, inline field => stops field
  | _, literal value => [.literal value]
  | _, compareValue op value => [.check (compareValue op value), .literal value]
  | _, compareList op values => .check (compareList op values) :: values.map .literal
  | _, compareField op field => .check (compareField op field) :: stops field
  | _, compareExpr op value => .check (compareExpr op value) :: stops value
  | _, existsTest query _ => stops query
  | _, caseWhen first rest otherwise => stops first ++ (stops rest ++ stops otherwise)
  | _, coalesce arguments => .check (coalesce arguments) :: stops arguments
  | _, jsonObject members => stops members
  | _, jsonArray element => stops element
  | _, paired field assertion => stops field ++ stops assertion
  | _, standalone value => stops value
  | _, single _ condition => stops condition
  | _, nested _ group => stops group
  | _, compareTest field assertion => stops field ++ stops assertion
  | _, conditionTest condition => stops condition
  | _, groupTest group => stops group ++ [.check (groupTest group)]
  | _, branch test result => stops test ++ stops result
  | _, member _ value => stops value
  | _, column field _ => stops field
  | _, derivedTable query _ => stops query
  | _, join _ table _ => stops table
  | _, ordering field _ => stops field
  | _, select columns source joins filter groupKeys having orderings attributes =>
    .check (select columns source joins filter groupKeys having orderings attributes) ::
      ((if attributes.head.isSome then [] else stops columns) ++
        (stops source ++ (stops joins ++ (stops filter ++ (stops groupKeys ++
          (stops having ++ stops orderings))))))
  | _, nil => []
  | _, cons first rest => stops first ++ stops rest
  | _, absent => []
  | _, present node => stops node

end Node

def Piece.stops : Piece → List Stop
  | node one => one.stops
  | columns items => items.stops
  | groupKeys items => items.stops
  | orderings items => items.stops

def Part.stops : Part → List Stop
  | piece one => one.stops
  | group entries => entries.stops

/-! ## What a rendering meets at the stops -/

namespace Stop

/-- What a rendering meets at a stop: the literal, or the fault of the node if it has one. -/
def events : Stop → Visit
  | literal value => .ofValues [value]
  | check node => node.fault?.elim [] fun error ↦ [.fault error]

theorem events_check_of_none {kind : Kind} {node : Node kind} (h : node.fault? = none) :
    (check node).events = [] := by
  simp [events, h]

theorem events_check_of_some {kind : Kind} {node : Node kind} {error : BuildError}
    (h : node.fault? = some error) : (check node).events = [.fault error] := by
  simp [events, h]

end Stop

/-- Two visits are the same up to the first fault. -/
structure Visit.Agrees (visit other : Visit) : Prop where
  bound_eq : visit.bound = other.bound
  fault?_eq : visit.fault? = other.fault?

namespace Visit.Agrees

variable {visit other next nextOther : Visit}

theorem refl (visit : Visit) : Agrees visit visit :=
  ⟨rfl, rfl⟩

theorem fault (error : BuildError) (other : Visit) :
    Agrees [.fault error] (.fault error :: other) :=
  ⟨rfl, rfl⟩

theorem append (h : Agrees visit other) (hnext : Agrees next nextOther) :
    Agrees (visit ++ next) (other ++ nextOther) := by
  constructor
  · cases hfault : visit.fault? with
    | some error =>
      have hother : other.fault? = some error := h.fault?_eq ▸ hfault
      rw [bound_append_of_fault _ hfault, bound_append_of_fault _ hother, h.bound_eq]
    | none =>
      have hother : other.fault? = none := h.fault?_eq ▸ hfault
      rw [bound_append_of_no_fault _ hfault, bound_append_of_no_fault _ hother, h.bound_eq,
        hnext.bound_eq]
  · rw [fault?_append, fault?_append, h.fault?_eq, hnext.fault?_eq]

/-- A node that is checked before its parts are visited. -/
theorem checked {kind : Kind} {node : Node kind} {error : BuildError} {ill : Prop} [Decidable ill]
    (hnode : node.fault? = if ill then some error else none) (h : Agrees visit other) :
    Agrees (if ill then [.fault error] else visit) ((Stop.check node).events ++ other) := by
  by_cases hill : ill
  · rw [if_pos hill] at hnode ⊢
    rw [Stop.events_check_of_some hnode]
    exact .fault error other
  · rw [if_neg hill] at hnode ⊢
    rw [Stop.events_check_of_none hnode]
    exact h

end Visit.Agrees

namespace Node

theorem fault?_compareValue (op : Operator) (value : Value) :
    (compareValue op value).fault? =
      if op.takesList then some (.listValueRequired op) else none := by
  cases op <;> rfl

theorem fault?_compareExpr (op : Operator) (value : Expr) :
    (compareExpr op value).fault? =
      if op.takesList then some (.listValueRequired op) else none := by
  cases op <;> rfl

theorem fault?_compareField (op : Operator) (field : Field) :
    (compareField op field).fault? =
      if fieldAllowed op field = false then some (.listValueRequired op) else none := by
  cases op <;> cases field <;> rfl

theorem fault?_coalesce (arguments : Node (.many .operand)) :
    (coalesce arguments).fault? = if arguments.isEmpty then some .emptyCoalesce else none := by
  cases arguments <;> rfl

theorem visitList_agrees (op : Operator) (values : List Value) :
    (visitList op values).Agrees
      ((Stop.check (compareList op values)).events ++ Visit.ofValues values) := by
  cases op with
  | isIn | notIn =>
    cases values with
    | nil => exact .fault _ _
    | cons value rest => exact .refl _
  | between =>
    match values with
    | [] | [_] | _ :: _ :: _ :: _ => exact .fault _ _
    | [lower, upper] => exact .refl _
  | _ => exact .fault _ _

theorem flatMap_events_literal (values : List Value) :
    (values.map Stop.literal).flatMap Stop.events = Visit.ofValues values := by
  induction values with
  | nil => rfl
  | cons value rest ih => exact congrArg (.literal value :: ·) ih

/-- Faults hide what comes after them, which is what the visit leaves out. -/
theorem visit_agrees {kind : Kind} (node : Node kind) :
    (visit node).Agrees ((stops node).flatMap Stop.events) := by
  induction node with
  | name _ | verbatim _ | literal _ | nullTest _ | raw _ | namedTable _ _ | nil | absent =>
    exact .refl _
  | computed _ ih | subquery _ ih | inline _ ih | existsTest _ _ ih | jsonObject _ ih
    | jsonArray _ ih | standalone _ ih | single _ _ ih | nested _ _ ih | conditionTest _ ih
    | member _ _ ih | column _ _ ih | derivedTable _ _ ih | join _ _ _ ih | ordering _ _ ih
    | present _ ih => exact ih
  | compareValue op value => exact .checked (fault?_compareValue op value) (.refl _)
  | compareList op values =>
    rw [visit, stops, List.flatMap_cons, flatMap_events_literal]
    exact visitList_agrees op values
  | compareField op field ih =>
    have hvisit : visit (compareField op field) =
        if fieldAllowed op field = false then [.fault (.listValueRequired op)]
        else visit field := by
      rw [visit]
      cases fieldAllowed op field <;> rfl
    rw [hvisit]
    exact .checked (fault?_compareField op field) ih
  | compareExpr op value ih => exact .checked (fault?_compareExpr op value) ih
  | coalesce arguments ih => exact .checked (fault?_coalesce arguments) ih
  | caseWhen _ _ _ ihFirst ihRest ihOtherwise =>
    rw [stops, List.flatMap_append, List.flatMap_append]
    exact ihFirst.append (ihRest.append ihOtherwise)
  | paired _ _ ihLeft ihRight | compareTest _ _ ihLeft ihRight | branch _ _ ihLeft ihRight
    | cons _ _ ihLeft ihRight =>
    rw [stops, List.flatMap_append]
    exact ihLeft.append ihRight
  | groupTest group ih =>
    rw [stops, List.flatMap_append]
    refine ih.append ?_
    cases hvanishes : vanishes group <;> simp [Stop.events, fault?, hvanishes, Visit.Agrees.refl]
  | select columns source joins filter groupKeys having orderings attributes ihColumns ihSource
      ihJoins ihFilter ihGroupKeys ihHaving ihOrderings =>
    cases source with
    | absent => exact .fault _ _
    | present source =>
      have hcolumns : Visit.Agrees (if attributes.head.isSome then [] else visit columns)
          ((if attributes.head.isSome then [] else stops columns).flatMap Stop.events) := by
        split
        · exact .refl _
        · exact ihColumns
      simp only [stops, List.flatMap_cons, List.flatMap_append]
      exact hcolumns.append (ihSource.append (ihJoins.append (ihFilter.append
        (ihGroupKeys.append (ihHaving.append ihOrderings)))))

end Node

theorem Part.visit_agrees (part : Part) :
    part.visit.Agrees (part.stops.flatMap Stop.events) := by
  cases part with
  | piece one => cases one <;> exact Node.visit_agrees _
  | group entries => exact Node.visit_agrees entries

/-! ## The first ill-formed stop -/

theorem conclusion_eq_some_iff {α : Type} {result : EStateM.Result BuildError Params α}
    {error : BuildError} {after : Params} :
    conclusion result = (some error, after) ↔ result = .error error after := by
  cases result <;> simp [conclusion]

theorem conclusion_eq_none_iff {α : Type} {result : EStateM.Result BuildError Params α}
    {after : Params} : conclusion result = (none, after) ↔ ∃ value, result = .ok value after := by
  cases result <;> simp [conclusion]

namespace Stop

theorem meet_of_wellFormed {stops : List Stop} (h : ∀ stop ∈ stops, stop.fault? = none) :
    Visit.fault? (stops.flatMap events) = none ∧
      Visit.bound (stops.flatMap events) = literals stops := by
  induction stops with
  | nil => exact ⟨rfl, rfl⟩
  | cons stop rest ih =>
    have hstop := h stop List.mem_cons_self
    obtain ⟨hfault, hbound⟩ := ih fun other hother ↦ h other (List.mem_cons_of_mem stop hother)
    cases stop with
    | literal value => exact ⟨hfault, congrArg (value :: ·) hbound⟩
    | check node =>
      rw [List.flatMap_cons, events_check_of_none hstop]
      exact ⟨hfault, hbound⟩

theorem meet_first_fault {before : List Stop} {site : Stop} {error : BuildError}
    (hbefore : ∀ stop ∈ before, stop.fault? = none) (hsite : site.fault? = some error)
    (later : List Stop) :
    Visit.fault? ((before ++ site :: later).flatMap events) = some error ∧
      Visit.bound ((before ++ site :: later).flatMap events) = literals before := by
  obtain ⟨hfault, hbound⟩ := meet_of_wellFormed hbefore
  have hevents : site.events = [.fault error] := by
    cases site with
    | literal value => cases hsite
    | check node => exact events_check_of_some hsite
  rw [List.flatMap_append, List.flatMap_cons, hevents, Visit.fault?_append, hfault,
    Visit.bound_append_of_no_fault _ hfault, hbound]
  exact ⟨rfl, List.append_nil _⟩

/-- Either all stops are well-formed, or one of them is the first that is not. -/
theorem wellFormed_or_first_fault (stops : List Stop) :
    (∀ stop ∈ stops, stop.fault? = none) ∨
      ∃ before site later error, stops = before ++ site :: later ∧
        (∀ stop ∈ before, stop.fault? = none) ∧ site.fault? = some error := by
  induction stops with
  | nil => exact .inl nofun
  | cons stop rest ih =>
    cases hstop : stop.fault? with
    | some error => exact .inr ⟨[], stop, rest, error, rfl, nofun, hstop⟩
    | none =>
      obtain hrest | ⟨before, site, later, error, rfl, hbefore, hsite⟩ := ih
      · exact .inl (List.forall_mem_cons.mpr ⟨hstop, hrest⟩)
      · exact .inr ⟨stop :: before, site, later, error, rfl,
          List.forall_mem_cons.mpr ⟨hstop, hbefore⟩, hsite⟩

end Stop

namespace Part

/-- Rendering a part meets what is met at its stops. -/
theorem conclusion_render (style : Style) (part : Part) (params : Params) :
    conclusion ((part.render style).run params) =
      (Visit.fault? (part.stops.flatMap Stop.events),
        params.append (Visit.bound (part.stops.flatMap Stop.events))) := by
  have hagrees := part.visit_agrees
  rw [← hagrees.fault?_eq, ← hagrees.bound_eq]
  exact part.render_follows style params

/-- A rendering fails exactly if some stop is ill-formed. It fails with the fault of the first
such stop and leaves bound the literals before it, behind what was bound at the start; without a
fault it binds all literals. -/
theorem first_fault_decides (style : Style) (part : Part) (params after : Params) :
    (∀ error, (part.render style).run params = .error error after ↔
      ∃ before site later, part.stops = before ++ site :: later ∧
        (∀ stop ∈ before, stop.fault? = none) ∧ site.fault? = some error ∧
        params.Binds (Stop.literals before) after) ∧
    ((∃ text, (part.render style).run params = .ok text after) ↔
      (∀ stop ∈ part.stops, stop.fault? = none) ∧
        params.Binds (Stop.literals part.stops) after) := by
  simp only [← conclusion_eq_some_iff, ← conclusion_eq_none_iff, conclusion_render,
    Prod.mk.injEq, Params.binds_iff]
  constructor
  · intro error
    constructor
    · rintro ⟨hfault, rfl⟩
      obtain hwell | ⟨before, site, later, first, hstops, hbefore, hsite⟩ :=
        Stop.wellFormed_or_first_fault part.stops
      · rw [(Stop.meet_of_wellFormed hwell).1] at hfault
        cases hfault
      · obtain ⟨hfirst, hbound⟩ := Stop.meet_first_fault hbefore hsite later
        rw [hstops, hfirst] at hfault
        cases hfault
        exact ⟨before, site, later, hstops, hbefore, hsite, by rw [hstops, hbound]⟩
    · rintro ⟨before, site, later, hstops, hbefore, hsite, rfl⟩
      obtain ⟨hfault, hbound⟩ := Stop.meet_first_fault hbefore hsite later
      rw [hstops]
      exact ⟨hfault, by rw [hbound]⟩
  · constructor
    · rintro ⟨hfault, rfl⟩
      obtain hwell | ⟨before, site, later, first, hstops, hbefore, hsite⟩ :=
        Stop.wellFormed_or_first_fault part.stops
      · exact ⟨hwell, by rw [(Stop.meet_of_wellFormed hwell).2]⟩
      · rw [hstops, (Stop.meet_first_fault hbefore hsite later).1] at hfault
        cases hfault
    · rintro ⟨hwell, rfl⟩
      obtain ⟨hfault, hbound⟩ := Stop.meet_of_wellFormed hwell
      exact ⟨hfault, by rw [hbound]⟩

end Part

end SqlSelect
