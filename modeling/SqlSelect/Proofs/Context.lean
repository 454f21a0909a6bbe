import SqlSelect.Select
import SqlSelect.Proofs.Reference

/-!
# Trees with one subquery taken out

A subquery stands in a field, after EXISTS or in the place of a table. What is around
it is a path of frames from there to the root, each of which is a node with one of its
children missing.
-/

namespace SqlSelect

namespace Node

/-- The nodes that hold a subquery, without it. -/
inductive Opening : Kind → Type where
  | subquery : Opening (.one .field)
  | existsTest (negated : Bool) : Opening (.one .expr)
  | derivedTable (label : String) : Opening (.one .table)

namespace Opening

def plug : {kind : Kind} → Opening kind → Select → Node kind
  | _, subquery, query => .subquery query
  | _, existsTest negated, query => .existsTest query negated
  | _, derivedTable label, query => .derivedTable query label

end Opening

/-- The places of a statement in which nodes stand. -/
inductive Slot : Kind → Type where
  | columns : Slot (.many .column)
  | source : Slot (.maybe .table)
  | joins : Slot (.many .join)
  | filter : Slot (.many .entry)
  | groupKeys : Slot (.many .field)
  | having : Slot (.many .entry)
  | orderings : Slot (.many .ordering)

namespace Slot

/-- The columns count only if no head is given. -/
def Counts (attributes : Attributes) : {kind : Kind} → Slot kind → Prop
  | _, columns => attributes.head = none
  | _, _ => True

def put (clauses : Clauses) : {kind : Kind} → Slot kind → Node kind → Clauses
  | _, columns, items => { clauses with columns := items }
  | _, source, table => { clauses with source := table }
  | _, joins, items => { clauses with joins := items }
  | _, filter, entries => { clauses with filter := entries }
  | _, groupKeys, items => { clauses with groupKeys := items }
  | _, having, entries => { clauses with having := entries }
  | _, orderings, items => { clauses with orderings := items }

end Slot

/-- A node of the outer kind without a child of the inner kind. -/
inductive Frame : Kind → Kind → Type where
  | opening {kind : Kind} (holder : Opening kind) : Frame (.one .select) kind
  | computed : Frame (.one .expr) (.one .field)
  | inline : Frame (.one .field) (.one .operand)
  | compareField (op : Operator) : Frame (.one .field) (.one .expr)
  | compareExpr (op : Operator) : Frame (.one .expr) (.one .expr)
  | firstBranch (others : Node (.many .branch)) (fallback : Node (.maybe .operand)) :
      Frame (.one .branch) (.one .expr)
  | otherBranches (leading : Branch) (fallback : Node (.maybe .operand)) :
      Frame (.many .branch) (.one .expr)
  | otherwise (leading : Branch) (others : Node (.many .branch)) :
      Frame (.maybe .operand) (.one .expr)
  | coalesce : Frame (.many .operand) (.one .expr)
  | jsonObject : Frame (.many .member) (.one .expr)
  | jsonArray : Frame (.one .field) (.one .expr)
  | pairedField (assertion : Expr) : Frame (.one .field) (.one .condition)
  | pairedAssertion (field : Field) : Frame (.one .expr) (.one .condition)
  | standalone : Frame (.one .expr) (.one .condition)
  | single (conjunction : Conjunction) : Frame (.one .condition) (.one .entry)
  | nested (conjunction : Conjunction) : Frame (.many .entry) (.one .entry)
  | testField (assertion : Expr) : Frame (.one .field) (.one .test)
  | testAssertion (field : Field) : Frame (.one .expr) (.one .test)
  | conditionTest : Frame (.one .condition) (.one .test)
  | groupTest : Frame (.many .entry) (.one .test)
  | branchTest (result : Operand) : Frame (.one .test) (.one .branch)
  | branchResult (test : CaseTest) : Frame (.one .operand) (.one .branch)
  | member (key : String) : Frame (.one .field) (.one .member)
  | column (label : Option String) : Frame (.one .field) (.one .column)
  | join (kind : Option JoinKind) (condition : String) : Frame (.one .table) (.one .join)
  | ordering (direction : OrderDirection) : Frame (.one .field) (.one .ordering)
  | clause (clauses : Clauses) {kind : Kind} (slot : Slot kind)
      (hcounts : slot.Counts clauses.attributes) : Frame kind (.one .select)
  | first {category : Category} (others : Node (.many category)) :
      Frame (.one category) (.many category)
  | rest {category : Category} (node : Node (.one category)) :
      Frame (.many category) (.many category)
  | present {category : Category} : Frame (.one category) (.maybe category)

namespace Frame

/-- The node with its child put in. -/
def plug : {inner outer : Kind} → Frame inner outer → Node inner → Node outer
  | _, _, opening holder, query => holder.plug query
  | _, _, computed, value => .computed value
  | _, _, inline, field => .inline field
  | _, _, compareField op, field => .compareField op field
  | _, _, compareExpr op, value => .compareExpr op value
  | _, _, firstBranch others fallback, leading => .caseWhen leading others fallback
  | _, _, otherBranches leading fallback, others => .caseWhen leading others fallback
  | _, _, otherwise leading others, fallback => .caseWhen leading others fallback
  | _, _, coalesce, arguments => .coalesce arguments
  | _, _, jsonObject, members => .jsonObject members
  | _, _, jsonArray, element => .jsonArray element
  | _, _, pairedField assertion, field => .paired field assertion
  | _, _, pairedAssertion field, assertion => .paired field assertion
  | _, _, standalone, value => .standalone value
  | _, _, single conjunction, condition => .single conjunction condition
  | _, _, nested conjunction, entries => .nested conjunction entries
  | _, _, testField assertion, field => .compareTest field assertion
  | _, _, testAssertion field, assertion => .compareTest field assertion
  | _, _, conditionTest, condition => .conditionTest condition
  | _, _, groupTest, entries => .groupTest entries
  | _, _, branchTest result, test => .branch test result
  | _, _, branchResult test, result => .branch test result
  | _, _, member key, value => .member key value
  | _, _, column label, field => .column field label
  | _, _, join kind condition, table => .join kind table condition
  | _, _, ordering direction, field => .ordering field direction
  | _, _, clause clauses slot _, part => Select.ofClauses (slot.put clauses part)
  | _, _, first others, node => .cons node others
  | _, _, rest node, others => .cons node others
  | _, _, present, node => .present node

end Frame

/-- A node without one of the subqueries in it. -/
inductive Context : Kind → Type where
  | opening {kind : Kind} (holder : Opening kind) : Context kind
  | within {inner outer : Kind} (frame : Frame inner outer) (context : Context inner) :
      Context outer

namespace Context

/-- The node with the subquery put in. -/
def plug : {kind : Kind} → Context kind → Select → Node kind
  | _, opening holder, query => holder.plug query
  | _, within frame context, query => frame.plug (context.plug query)

/-! ## What does not depend on the subquery -/

/-- Whether a field is computed or a subquery depends on its outermost frame. -/
theorem exists_isComputed (context : Context (.one .field)) :
    ∃ isComputed, ∀ query, (context.plug query).isComputed = isComputed := by
  cases context with
  | opening holder => cases holder; exact ⟨false, fun _ ↦ rfl⟩
  | within frame context =>
    cases frame with
    | opening holder => cases holder; exact ⟨false, fun _ ↦ rfl⟩
    | computed => exact ⟨true, fun _ ↦ rfl⟩

theorem exists_isSubquery (context : Context (.one .field)) :
    ∃ isSubquery, ∀ query, (context.plug query).isSubquery = isSubquery := by
  cases context with
  | opening holder => cases holder; exact ⟨true, fun _ ↦ rfl⟩
  | within frame context =>
    cases frame with
    | opening holder => cases holder; exact ⟨true, fun _ ↦ rfl⟩
    | computed => exact ⟨false, fun _ ↦ rfl⟩

theorem isEmpty_plug {category : Category} :
    ∀ (context : Context (.many category)) (query : Select), (context.plug query).isEmpty = false
  | opening holder, _ => nomatch holder
  | within (.opening holder) _, _ => nomatch holder
  | within (.first _) _, _ => rfl
  | within (.rest _) _, _ => rfl

theorem exists_conjunction (context : Context (.one .entry)) :
    ∃ conjunction, ∀ query, (context.plug query).conjunction = conjunction := by
  cases context with
  | opening holder => cases holder
  | within frame context =>
    cases frame with
    | opening holder => cases holder
    | single conjunction => exact ⟨conjunction, fun _ ↦ rfl⟩
    | nested conjunction => exact ⟨conjunction, fun _ ↦ rfl⟩

theorem exists_conjunctions : ∀ context : Context (.many .entry),
    ∃ conjunctions, ∀ query, (context.plug query).conjunctions = conjunctions
  | opening holder => nomatch holder
  | within (.opening holder) _ => nomatch holder
  | within (.first rest) context => by
    obtain ⟨conjunction, hconjunction⟩ := exists_conjunction context
    exact ⟨conjunction :: rest.conjunctions,
      fun query ↦ congrArg (· :: rest.conjunctions) (hconjunction query)⟩
  | within (.rest first) context => by
    obtain ⟨conjunctions, hconjunctions⟩ := exists_conjunctions context
    exact ⟨first.conjunction :: conjunctions,
      fun query ↦ congrArg (first.conjunction :: ·) (hconjunctions query)⟩

theorem exists_present {category : Category} : ∀ context : Context (.maybe category),
    ∃ inner : Context (.one category), ∀ query, context.plug query = .present (inner.plug query)
  | opening holder => nomatch holder
  | within (.opening holder) _ => nomatch holder
  | within .present inner => ⟨inner, fun _ ↦ rfl⟩

end Context

/-! ## Every subquery stands in a context -/

/-- The subqueries in a node at any depth, as they are met from left to right. The columns under a
head that is given are not written, so what is in them is left out. -/
def subqueries : {kind : Kind} → Node kind → List Select
  | _, name _ | _, verbatim _ | _, literal _ | _, compareValue _ _ | _, compareList _ _
  | _, nullTest _ | _, raw _ | _, namedTable _ _ => []
  | _, subquery query => query :: subqueries query
  | _, existsTest query _ => query :: subqueries query
  | _, derivedTable query _ => query :: subqueries query
  | _, computed value => subqueries value
  | _, inline field => subqueries field
  | _, compareField _ field => subqueries field
  | _, compareExpr _ value => subqueries value
  | _, caseWhen leading others fallback =>
    subqueries leading ++ subqueries others ++ subqueries fallback
  | _, coalesce arguments => subqueries arguments
  | _, jsonObject members => subqueries members
  | _, jsonArray element => subqueries element
  | _, paired field assertion => subqueries field ++ subqueries assertion
  | _, standalone value => subqueries value
  | _, single _ condition => subqueries condition
  | _, nested _ group => subqueries group
  | _, compareTest field assertion => subqueries field ++ subqueries assertion
  | _, conditionTest condition => subqueries condition
  | _, groupTest group => subqueries group
  | _, branch test result => subqueries test ++ subqueries result
  | _, member _ value => subqueries value
  | _, column field _ => subqueries field
  | _, join _ table _ => subqueries table
  | _, ordering field _ => subqueries field
  | _, select columns source joins filter groupKeys having orderings attributes =>
    (if attributes.head = none then subqueries columns else []) ++ subqueries source ++
      subqueries joins ++ subqueries filter ++ subqueries groupKeys ++ subqueries having ++
      subqueries orderings
  | _, nil | _, absent => []
  | _, cons first rest => subqueries first ++ subqueries rest
  | _, present node => subqueries node

/-- The subquery can be taken out of the node. -/
def HasContext {kind : Kind} (node : Node kind) (query : Select) : Prop :=
  ∃ context : Context kind, context.plug query = node

theorem HasContext.within {inner outer : Kind} {node : Node inner} {query : Select}
    (h : HasContext node query) (frame : Frame inner outer) :
    HasContext (frame.plug node) query := by
  obtain ⟨context, rfl⟩ := h
  exact ⟨.within frame context, rfl⟩

theorem Opening.hasContext_of_mem {kind : Kind} (holder : Opening kind) {query inner : Select}
    (hinner : ∀ query ∈ subqueries inner, HasContext inner query)
    (h : query ∈ inner :: subqueries inner) : HasContext (holder.plug inner) query := by
  rcases List.mem_cons.mp h with rfl | hmem
  · exact ⟨.opening holder, rfl⟩
  · exact (hinner query hmem).within (.opening holder)

theorem hasContext_of_mem_subqueries {kind : Kind} (node : Node kind) :
    ∀ query ∈ subqueries node, HasContext node query := by
  induction node with
  | subquery _ ih => exact fun _ ↦ Opening.hasContext_of_mem .subquery ih
  | existsTest _ negated ih => exact fun _ ↦ Opening.hasContext_of_mem (.existsTest negated) ih
  | derivedTable _ label ih => exact fun _ ↦ Opening.hasContext_of_mem (.derivedTable label) ih
  | computed _ ih => exact fun query h ↦ (ih query h).within .computed
  | inline _ ih => exact fun query h ↦ (ih query h).within .inline
  | compareField op _ ih => exact fun query h ↦ (ih query h).within (.compareField op)
  | compareExpr op _ ih => exact fun query h ↦ (ih query h).within (.compareExpr op)
  | caseWhen leading others fallback ihLeading ihOthers ihFallback =>
    intro query h
    rw [subqueries, List.mem_append, List.mem_append] at h
    obtain (h | h) | h := h
    · exact (ihLeading query h).within (.firstBranch others fallback)
    · exact (ihOthers query h).within (.otherBranches leading fallback)
    · exact (ihFallback query h).within (.otherwise leading others)
  | coalesce _ ih => exact fun query h ↦ (ih query h).within .coalesce
  | jsonObject _ ih => exact fun query h ↦ (ih query h).within .jsonObject
  | jsonArray _ ih => exact fun query h ↦ (ih query h).within .jsonArray
  | paired field assertion ihField ihAssertion =>
    intro query h
    rw [subqueries, List.mem_append] at h
    obtain h | h := h
    · exact (ihField query h).within (.pairedField assertion)
    · exact (ihAssertion query h).within (.pairedAssertion field)
  | standalone _ ih => exact fun query h ↦ (ih query h).within .standalone
  | single conjunction _ ih => exact fun query h ↦ (ih query h).within (.single conjunction)
  | nested conjunction _ ih => exact fun query h ↦ (ih query h).within (.nested conjunction)
  | compareTest field assertion ihField ihAssertion =>
    intro query h
    rw [subqueries, List.mem_append] at h
    obtain h | h := h
    · exact (ihField query h).within (.testField assertion)
    · exact (ihAssertion query h).within (.testAssertion field)
  | conditionTest _ ih => exact fun query h ↦ (ih query h).within .conditionTest
  | groupTest _ ih => exact fun query h ↦ (ih query h).within .groupTest
  | branch test result ihTest ihResult =>
    intro query h
    rw [subqueries, List.mem_append] at h
    obtain h | h := h
    · exact (ihTest query h).within (.branchTest result)
    · exact (ihResult query h).within (.branchResult test)
  | member key _ ih => exact fun query h ↦ (ih query h).within (.member key)
  | column _ label ih => exact fun query h ↦ (ih query h).within (.column label)
  | join kind _ condition ih => exact fun query h ↦ (ih query h).within (.join kind condition)
  | ordering _ direction ih => exact fun query h ↦ (ih query h).within (.ordering direction)
  | select columns source joins filter groupKeys having orderings attributes ihColumns ihSource
      ihJoins ihFilter ihGroupKeys ihHaving ihOrderings =>
    intro query h
    let clauses : Clauses :=
      { columns, source, joins, filter, groupKeys, having, orderings, attributes }
    have hslot : ∀ {kind : Kind} (slot : Slot kind) {part : Node kind}, HasContext part query →
        slot.Counts attributes → HasContext (Select.ofClauses (slot.put clauses part)) query :=
      fun slot _ hpart hcounts ↦ hpart.within (.clause clauses slot hcounts)
    simp only [subqueries, List.mem_append, or_assoc] at h
    obtain h | h | h | h | h | h | h := h
    · split at h
      case isTrue hhead => exact hslot .columns (ihColumns query h) hhead
      case isFalse => cases h
    · exact hslot .source (ihSource query h) trivial
    · exact hslot .joins (ihJoins query h) trivial
    · exact hslot .filter (ihFilter query h) trivial
    · exact hslot .groupKeys (ihGroupKeys query h) trivial
    · exact hslot .having (ihHaving query h) trivial
    · exact hslot .orderings (ihOrderings query h) trivial
  | cons first rest ihFirst ihRest =>
    intro query h
    rw [subqueries, List.mem_append] at h
    obtain h | h := h
    · exact (ihFirst query h).within (.first rest)
    · exact (ihRest query h).within (.rest first)
  | present _ ih => exact fun query h ↦ (ih query h).within .present
  | _ => exact nofun

theorem Frame.mem_subqueries {inner outer : Kind} (frame : Frame inner outer) {node : Node inner}
    {query : Select} (h : query ∈ subqueries node) : query ∈ subqueries (frame.plug node) := by
  cases frame with
  | opening holder => cases holder <;> exact List.mem_cons_of_mem _ h
  | clause clauses slot hcounts =>
    cases slot with
    | columns =>
      have hhead : clauses.attributes.head = none := hcounts
      simp [Frame.plug, Slot.put, Select.ofClauses, subqueries, hhead, h]
    | _ => simp [Frame.plug, Slot.put, Select.ofClauses, subqueries, h]
  | _ => simp [Frame.plug, subqueries, h]

/-- The contexts leave out no place in which a subquery can stand. -/
theorem mem_subqueries_iff {kind : Kind} {node : Node kind} {query : Select} :
    query ∈ subqueries node ↔ HasContext node query := by
  refine ⟨hasContext_of_mem_subqueries node query, ?_⟩
  rintro ⟨context, rfl⟩
  induction context with
  | opening holder => cases holder <;> exact List.mem_cons_self
  | within frame context ih => exact frame.mem_subqueries ih

end Node

/-- A part without one of the subqueries in it. -/
inductive Part.Context where
  | node {category : Category} (context : Node.Context (.one category))
  | columns (context : Node.Context (.many .column))
  | groupKeys (context : Node.Context (.many .field))
  | orderings (context : Node.Context (.many .ordering))
  | group (context : Node.Context (.many .entry))

namespace Part.Context

/-- The part with the subquery put in. -/
def plug : Part.Context → Select → Part
  | node context, query => .piece (.node (context.plug query))
  | columns context, query => .piece (.columns (context.plug query))
  | groupKeys context, query => .piece (.groupKeys (context.plug query))
  | orderings context, query => .piece (.orderings (context.plug query))
  | group context, query => .group (context.plug query)

end Part.Context

end SqlSelect
