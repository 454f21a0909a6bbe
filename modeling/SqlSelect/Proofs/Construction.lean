import Mathlib.Logic.Basic
import SqlSelect.Case
import SqlSelect.Select
import SqlSelect.Proofs.Indistinguishable

/-!
# Programs that build statements

A script is a program of construction calls in which the places for values are left
open. Two programs that differ only in the values passed are one script filled in
twice. All calls treat the values as opaque, except that a WHEN which asks for
equality looks whether it is given the null literal.
-/

namespace SqlSelect

open Document

/-! ## Scripts -/

/-- What a call makes. -/
inductive Product where
  | node (kind : Kind)
  | comparand
  | criterion
  | step

abbrev Product.Made : Product → Type
  | node kind => Node kind
  | comparand => Comparand
  | criterion => Criterion
  | step => Step

/-- A program of construction calls, with places where values are passed. -/
inductive Script (place : Type) : Product → Type where
  | name (path : String) : Script place (.node (.one .field))
  | verbatim (sql : String) : Script place (.node (.one .field))
  | computed (value : Script place (.node (.one .expr))) : Script place (.node (.one .field))
  | subquery (query : Script place (.node (.one .select))) : Script place (.node (.one .field))
  | inline (field : Script place (.node (.one .field))) : Script place (.node (.one .operand))
  | literal (value : place) : Script place (.node (.one .operand))
  | ofValue (value : place) : Script place .comparand
  | ofList (values : List place) : Script place .comparand
  | ofField (field : Script place (.node (.one .field))) : Script place .comparand
  | ofExpr (value : Script place (.node (.one .expr))) : Script place .comparand
  | compare (op : Operator) (right : Script place .comparand) : Script place (.node (.one .expr))
  | nullTest (negated : Bool) : Script place (.node (.one .expr))
  | existsTest (query : Script place (.node (.one .select))) (negated : Bool) :
      Script place (.node (.one .expr))
  | caseWhen (first : Script place (.node (.one .branch)))
      (rest : Script place (.node (.many .branch)))
      (otherwise : Script place (.node (.maybe .operand))) : Script place (.node (.one .expr))
  | coalesce (arguments : Script place (.node (.many .operand))) :
      Script place (.node (.one .expr))
  | jsonObject (members : Script place (.node (.many .member))) :
      Script place (.node (.one .expr))
  | jsonArray (element : Script place (.node (.one .field))) : Script place (.node (.one .expr))
  | raw (sql : String) : Script place (.node (.one .expr))
  | paired (field : Script place (.node (.one .field)))
      (assertion : Script place (.node (.one .expr))) : Script place (.node (.one .condition))
  | standalone (value : Script place (.node (.one .expr))) : Script place (.node (.one .condition))
  | impliedCondition (field : Script place (.node (.one .field)))
      (right : Script place .comparand) : Script place (.node (.one .condition))
  | implied (field : Script place (.node (.one .field))) (right : Script place .comparand) :
      Script place .criterion
  | compared (field : Script place (.node (.one .field))) (op : Operator)
      (right : Script place .comparand) : Script place .criterion
  | condition (asked : Script place (.node (.one .condition))) : Script place .criterion
  | group (asked : Script place (.node (.many .entry))) : Script place .criterion
  | emptyGroup : Script place (.node (.many .entry))
  | add (group : Script place (.node (.many .entry))) (conjunction : Conjunction)
      (criterion : Script place .criterion) : Script place (.node (.many .entry))
  | whenCompare (field : Script place (.node (.one .field))) (op : Operator)
      (right : Script place .comparand) : Script place (.node (.one .test))
  | whenAsserts (field : Script place (.node (.one .field)))
      (assertion : Script place (.node (.one .expr))) : Script place (.node (.one .test))
  | whenGroup (group : Script place (.node (.many .entry))) : Script place (.node (.one .test))
  | branch (test : Script place (.node (.one .test)))
      (result : Script place (.node (.one .operand))) : Script place (.node (.one .branch))
  | member (key : String) (value : Script place (.node (.one .field))) :
      Script place (.node (.one .member))
  | namedTable (table : String) (label : Option String) : Script place (.node (.one .table))
  | derivedTable (query : Script place (.node (.one .select))) (label : String) :
      Script place (.node (.one .table))
  | setOptions (options : Options) : Script place .step
  | column (field : Script place (.node (.one .field))) (label : Option String) :
      Script place .step
  | head (sql : String) : Script place .step
  | source (table : Script place (.node (.one .table))) : Script place .step
  | join (kind : Option JoinKind) (table : Script place (.node (.one .table)))
      (condition : String) : Script place .step
  | filter (criterion : Script place .criterion) : Script place .step
  | having (criterion : Script place .criterion) : Script place .step
  | groupKey (field : Script place (.node (.one .field))) : Script place .step
  | ordering (field : Script place (.node (.one .field))) (direction : OrderDirection) :
      Script place .step
  | limit (count : Nat) : Script place .step
  | offset (count : Nat) : Script place .step
  | emptyQuery : Script place (.node (.one .select))
  | andThen (query : Script place (.node (.one .select))) (step : Script place .step) :
      Script place (.node (.one .select))
  | nil {category : Category} : Script place (.node (.many category))
  | cons {category : Category} (first : Script place (.node (.one category)))
      (rest : Script place (.node (.many category))) : Script place (.node (.many category))
  | absent {category : Category} : Script place (.node (.maybe category))
  | present {category : Category} (node : Script place (.node (.one category))) :
      Script place (.node (.maybe category))

namespace Script

variable {place : Type}

/-- Makes the calls, with values passed in the places. -/
def build (fill : place → Value) : {product : Product} → Script place product → product.Made
  | _, name path => Node.name path
  | _, verbatim sql => Node.verbatim sql
  | _, computed value => Node.computed (build fill value)
  | _, subquery query => Node.subquery (build fill query)
  | _, inline field => Node.inline (build fill field)
  | _, literal value => Node.literal (fill value)
  | _, ofValue value => Comparand.value (fill value)
  | _, ofList values => Comparand.list (values.map fill)
  | _, ofField field => Comparand.field (build fill field)
  | _, ofExpr value => Comparand.expr (build fill value)
  | _, compare op right => Expr.compare op (build fill right)
  | _, nullTest negated => Node.nullTest negated
  | _, existsTest query negated => Node.existsTest (build fill query) negated
  | _, caseWhen first rest otherwise =>
    Node.caseWhen (build fill first) (build fill rest) (build fill otherwise)
  | _, coalesce arguments => Node.coalesce (build fill arguments)
  | _, jsonObject members => Node.jsonObject (build fill members)
  | _, jsonArray element => Node.jsonArray (build fill element)
  | _, raw sql => Node.raw sql
  | _, paired field assertion => Node.paired (build fill field) (build fill assertion)
  | _, standalone value => Node.standalone (build fill value)
  | _, impliedCondition field right => Condition.implied (build fill field) (build fill right)
  | _, implied field right => Criterion.implied (build fill field) (build fill right)
  | _, compared field op right => Criterion.compare (build fill field) op (build fill right)
  | _, condition asked => Criterion.predicate (.condition (build fill asked))
  | _, group asked => Criterion.predicate (.group (build fill asked))
  | _, emptyGroup => Group.empty
  | _, add entries conjunction criterion =>
    Group.add (build fill entries) conjunction (build fill criterion)
  | _, whenCompare field op right => (When.compare (build fill field) op (build fill right)).test
  | _, whenAsserts field assertion =>
    (When.asserts (build fill field) (build fill assertion)).test
  | _, whenGroup entries => (When.group (build fill entries)).test
  | _, branch test result => Node.branch (build fill test) (build fill result)
  | _, member key value => Node.member key (build fill value)
  | _, namedTable table label => Node.namedTable table label
  | _, derivedTable query label => Node.derivedTable (build fill query) label
  | _, setOptions options => Step.options options
  | _, column field label => Step.column (build fill field) label
  | _, head sql => Step.head sql
  | _, source table => Step.source (build fill table)
  | _, join kind table text => Step.join kind (build fill table) text
  | _, filter criterion => Step.filter (build fill criterion)
  | _, having criterion => Step.having (build fill criterion)
  | _, groupKey field => Step.groupKey (build fill field)
  | _, ordering field direction => Step.ordering (build fill field) direction
  | _, limit count => Step.limit count
  | _, offset count => Step.offset count
  | _, emptyQuery => Select.empty
  | _, andThen query step => Select.step (build fill query) (build fill step)
  | _, nil => Node.nil
  | _, cons first rest => Node.cons (build fill first) (build fill rest)
  | _, absent => Node.absent
  | _, present node => Node.present (build fill node)

/-- The places whose value a WHEN looks at. -/
def inspected : Operator → Script place .comparand → List place
  | .eq, ofValue value | .ne, ofValue value | .unequal, ofValue value => [value]
  | _, _ => []

/-- The places whose value some WHEN of the program looks at. -/
def nullTests : {product : Product} → Script place product → List place
  | _, name _ | _, verbatim _ | _, literal _ | _, ofValue _ | _, ofList _ | _, nullTest _
  | _, raw _ | _, emptyGroup | _, namedTable _ _ | _, setOptions _ | _, head _ | _, limit _
  | _, offset _ | _, emptyQuery | _, nil | _, absent => []
  | _, computed value => nullTests value
  | _, subquery query => nullTests query
  | _, inline field => nullTests field
  | _, ofField field => nullTests field
  | _, ofExpr value => nullTests value
  | _, compare _ right => nullTests right
  | _, existsTest query _ => nullTests query
  | _, caseWhen first rest otherwise =>
    nullTests first ++ (nullTests rest ++ nullTests otherwise)
  | _, coalesce arguments => nullTests arguments
  | _, jsonObject members => nullTests members
  | _, jsonArray element => nullTests element
  | _, paired field assertion => nullTests field ++ nullTests assertion
  | _, standalone value => nullTests value
  | _, impliedCondition field right => nullTests field ++ nullTests right
  | _, implied field right => nullTests field ++ nullTests right
  | _, compared field _ right => nullTests field ++ nullTests right
  | _, condition asked => nullTests asked
  | _, group asked => nullTests asked
  | _, add entries _ criterion => nullTests entries ++ nullTests criterion
  | _, whenCompare field op right => nullTests field ++ (inspected op right ++ nullTests right)
  | _, whenAsserts field assertion => nullTests field ++ nullTests assertion
  | _, whenGroup entries => nullTests entries
  | _, branch test result => nullTests test ++ nullTests result
  | _, member _ value => nullTests value
  | _, derivedTable query _ => nullTests query
  | _, column field _ => nullTests field
  | _, source table => nullTests table
  | _, join _ table _ => nullTests table
  | _, filter criterion => nullTests criterion
  | _, having criterion => nullTests criterion
  | _, groupKey field => nullTests field
  | _, ordering field _ => nullTests field
  | _, andThen query step => nullTests query ++ nullTests step
  | _, cons first rest => nullTests first ++ nullTests rest
  | _, present node => nullTests node

end Script

/-! ## Changing the literals of what is made -/

namespace Comparand

def mapLiterals (change : Value → Value) : Comparand → Comparand
  | value one => value (change one)
  | list many => list (many.map change)
  | field one => field (one.mapLiterals change)
  | expr one => expr (one.mapLiterals change)

end Comparand

namespace Criterion

def mapLiterals (change : Value → Value) : Criterion → Criterion
  | implied field right => implied (field.mapLiterals change) (right.mapLiterals change)
  | compare field op right => compare (field.mapLiterals change) op (right.mapLiterals change)
  | predicate (.condition asked) => predicate (.condition (asked.mapLiterals change))
  | predicate (.group asked) => predicate (.group (asked.mapLiterals change))

end Criterion

namespace Step

def mapLiterals (change : Value → Value) : Step → Step
  | options given => options given
  | column field label => column (field.mapLiterals change) label
  | head sql => head sql
  | source table => source (table.mapLiterals change)
  | join kind table condition => join kind (table.mapLiterals change) condition
  | filter criterion => filter (criterion.mapLiterals change)
  | having criterion => having (criterion.mapLiterals change)
  | groupKey field => groupKey (field.mapLiterals change)
  | ordering field direction => ordering (field.mapLiterals change) direction
  | limit count => limit count
  | offset count => offset count

end Step

def Product.mapLiterals (change : Value → Value) :
    (product : Product) → product.Made → product.Made
  | node _ => Node.mapLiterals change
  | comparand => Comparand.mapLiterals change
  | criterion => Criterion.mapLiterals change
  | step => Step.mapLiterals change

section Calls

variable (change : Value → Value)

theorem Expr.mapLiterals_compare (op : Operator) (right : Comparand) :
    Node.mapLiterals change (Expr.compare op right) =
      Expr.compare op (right.mapLiterals change) := by
  cases right <;> rfl

theorem Condition.mapLiterals_implied (field : Field) (right : Comparand) :
    Node.mapLiterals change (Condition.implied field right) =
      Condition.implied (field.mapLiterals change) (right.mapLiterals change) := by
  cases right <;> rfl

theorem Node.mapLiterals_push {category : Category} (nodes : Node (.many category))
    (last : Node (.one category)) :
    (nodes.push last).mapLiterals change =
      (nodes.mapLiterals change).push (last.mapLiterals change) := by
  apply toList_injective
  simp [toList_mapLiterals]

theorem Criterion.mapLiterals_entry (criterion : Criterion) (conjunction : Conjunction) :
    (criterion.toPredicate.entry conjunction).mapLiterals change =
      (criterion.mapLiterals change).toPredicate.entry conjunction := by
  cases criterion with
  | implied field right =>
    exact congrArg (Node.single conjunction) (Condition.mapLiterals_implied change field right)
  | compare field op right =>
    exact congrArg (fun assertion ↦ Node.single conjunction (.paired _ assertion))
      (Expr.mapLiterals_compare change op right)
  | predicate asked => cases asked <;> rfl

theorem Group.mapLiterals_add (group : Group) (conjunction : Conjunction) (criterion : Criterion) :
    (group.add conjunction criterion).mapLiterals change =
      Group.add (group.mapLiterals change) conjunction (criterion.mapLiterals change) := by
  rw [Group.add, Node.mapLiterals_push, Criterion.mapLiterals_entry, Group.add]

theorem Select.mapLiterals_step (query : Select) (step : Step) :
    (query.step step).mapLiterals change =
      Select.step (query.mapLiterals change) (step.mapLiterals change) := by
  cases query with
  | select columns source joins filter groupKeys having orderings attributes =>
    cases step with
    | options | head | source | limit | offset => rfl
    | column | join | groupKey | ordering =>
      simp [Select.step, Clauses.step, Step.mapLiterals, clauses, ofClauses, Node.mapLiterals,
        Node.mapLiterals_push]
    | filter | having =>
      simp [Select.step, Clauses.step, Step.mapLiterals, clauses, ofClauses, Node.mapLiterals,
        Group.mapLiterals_add]

end Calls

namespace When

theorem comparison_eq_compare (op : Operator) {right : Comparand} (h : right ≠ .value .null) :
    comparison op right = Expr.compare op right := by
  unfold comparison
  split
  · contradiction
  · contradiction
  · contradiction
  · rfl

end When

/-! ## Filling in a script twice -/

namespace Script

variable {place : Type} (first second : place → Value)

/-- Values that are null at the same places leave no trace of which of them is passed. -/
def NullsAgree {product : Product} (script : Script place product) : Prop :=
  ∀ value ∈ script.nullTests, first value = .null ↔ second value = .null

variable {first second}

theorem mapLiterals_comparison (op : Operator) (right : Script place .comparand)
    (hnull : ∀ value ∈ inspected op right, first value = .null ↔ second value = .null)
    (hright : Comparand.mapLiterals (fun _ ↦ .null) (build first right) =
      Comparand.mapLiterals (fun _ ↦ .null) (build second right)) :
    Node.mapLiterals (fun _ ↦ .null) (When.comparison op (build first right)) =
      Node.mapLiterals (fun _ ↦ .null) (When.comparison op (build second right)) := by
  have hcompare := Expr.mapLiterals_compare (fun _ ↦ .null) op
  have hopaque : ∀ right other : Comparand, right ≠ .value .null → other ≠ .value .null →
      right.mapLiterals (fun _ ↦ .null) = other.mapLiterals (fun _ ↦ .null) →
      Node.mapLiterals (fun _ ↦ .null) (When.comparison op right) =
        Node.mapLiterals (fun _ ↦ .null) (When.comparison op other) := by
    intro right other hright hother heq
    rw [When.comparison_eq_compare op hright, When.comparison_eq_compare op hother, hcompare,
      hcompare, heq]
  cases right with
  | ofList _ | ofField _ | ofExpr _ => exact hopaque _ _ nofun nofun hright
  | ofValue value =>
    have hlooks : inspected op (ofValue value) = [value] ∨
        ∀ one, When.comparison op (.value one) = Expr.compare op (.value one) := by
      cases op <;> first
        | exact .inl rfl
        | exact .inr fun _ ↦ rfl
    rcases hlooks with hinspected | hplain
    · have hiff := hnull value (by simp [hinspected])
      by_cases hfirst : first value = .null
      · rw [build, build, hfirst, hiff.mp hfirst]
      · have hsecond : second value ≠ .null := fun heq ↦ hfirst (hiff.mpr heq)
        exact hopaque _ _ (by simpa [build] using hfirst) (by simpa [build] using hsecond) hright
    · rw [build, build, hplain, hplain, hcompare, hcompare]
      rfl

theorem mapLiterals_build {product : Product} (script : Script place product)
    (h : NullsAgree first second script) :
    product.mapLiterals (fun _ ↦ .null) (script.build first) =
      product.mapLiterals (fun _ ↦ .null) (script.build second) := by
  induction script with
  | name _ | verbatim _ | literal _ | ofValue _ | nullTest _ | raw _ | emptyGroup
    | namedTable _ _ | setOptions _ | head _ | limit _ | offset _ | emptyQuery | nil | absent => rfl
  | computed value ih => exact congrArg Node.computed (ih h)
  | subquery query ih => exact congrArg Node.subquery (ih h)
  | inline field ih => exact congrArg Node.inline (ih h)
  | ofList values => simp [build, Product.mapLiterals, Comparand.mapLiterals]
  | ofField field ih => exact congrArg Comparand.field (ih h)
  | ofExpr value ih => exact congrArg Comparand.expr (ih h)
  | compare op right ih =>
    have hcompare := Expr.mapLiterals_compare (fun _ ↦ .null) op
    simp only [build, Product.mapLiterals, hcompare]
    exact congrArg (Expr.compare op) (ih h)
  | existsTest query negated ih => exact congrArg (Node.existsTest · negated) (ih h)
  | caseWhen first rest otherwise ihFirst ihRest ihOtherwise =>
    obtain ⟨hfirst, hrest⟩ := List.forall_mem_append.mp h
    obtain ⟨hrest, hotherwise⟩ := List.forall_mem_append.mp hrest
    have hbranches := congrArg₂ Node.caseWhen (ihFirst hfirst) (ihRest hrest)
    have hcase := congr hbranches (ihOtherwise hotherwise)
    exact hcase
  | coalesce arguments ih => exact congrArg Node.coalesce (ih h)
  | jsonObject members ih => exact congrArg Node.jsonObject (ih h)
  | jsonArray element ih => exact congrArg Node.jsonArray (ih h)
  | paired field assertion ihField ihAssertion =>
    obtain ⟨hfield, hassertion⟩ := List.forall_mem_append.mp h
    exact congrArg₂ Node.paired (ihField hfield) (ihAssertion hassertion)
  | standalone value ih => exact congrArg Node.standalone (ih h)
  | impliedCondition field right ihField ihRight =>
    obtain ⟨hfield, hright⟩ := List.forall_mem_append.mp h
    have himplied := Condition.mapLiterals_implied (fun _ ↦ .null)
    simp only [build, Product.mapLiterals, himplied]
    exact congrArg₂ Condition.implied (ihField hfield) (ihRight hright)
  | implied field right ihField ihRight =>
    obtain ⟨hfield, hright⟩ := List.forall_mem_append.mp h
    exact congrArg₂ Criterion.implied (ihField hfield) (ihRight hright)
  | compared field op right ihField ihRight =>
    obtain ⟨hfield, hright⟩ := List.forall_mem_append.mp h
    exact congrArg₂ (Criterion.compare · op) (ihField hfield) (ihRight hright)
  | condition asked ih => exact congrArg (Criterion.predicate ∘ .condition) (ih h)
  | group asked ih => exact congrArg (Criterion.predicate ∘ .group) (ih h)
  | add entries conjunction criterion ihEntries ihCriterion =>
    obtain ⟨hentries, hcriterion⟩ := List.forall_mem_append.mp h
    have hadd := Group.mapLiterals_add (fun _ ↦ .null)
    simp only [build, Product.mapLiterals, hadd]
    exact congrArg₂ (Group.add · conjunction) (ihEntries hentries) (ihCriterion hcriterion)
  | whenCompare field op right ihField ihRight =>
    obtain ⟨hfield, hright⟩ := List.forall_mem_append.mp h
    obtain ⟨hinspected, hright⟩ := List.forall_mem_append.mp hright
    have hcomparison := mapLiterals_comparison op right hinspected (ihRight hright)
    exact congrArg₂ Node.compareTest (ihField hfield) hcomparison
  | whenAsserts field assertion ihField ihAssertion =>
    obtain ⟨hfield, hassertion⟩ := List.forall_mem_append.mp h
    exact congrArg Node.conditionTest
      (congrArg₂ Node.paired (ihField hfield) (ihAssertion hassertion))
  | whenGroup entries ih => exact congrArg Node.groupTest (ih h)
  | branch test result ihTest ihResult =>
    obtain ⟨htest, hresult⟩ := List.forall_mem_append.mp h
    exact congrArg₂ Node.branch (ihTest htest) (ihResult hresult)
  | member key value ih => exact congrArg (Node.member key) (ih h)
  | derivedTable query label ih => exact congrArg (Node.derivedTable · label) (ih h)
  | column field label ih => exact congrArg (Step.column · label) (ih h)
  | source table ih => exact congrArg Step.source (ih h)
  | join kind table condition ih => exact congrArg (Step.join kind · condition) (ih h)
  | filter criterion ih => exact congrArg Step.filter (ih h)
  | having criterion ih => exact congrArg Step.having (ih h)
  | groupKey field ih => exact congrArg Step.groupKey (ih h)
  | ordering field direction ih => exact congrArg (Step.ordering · direction) (ih h)
  | andThen query step ihQuery ihStep =>
    obtain ⟨hquery, hstep⟩ := List.forall_mem_append.mp h
    have hadvance := Select.mapLiterals_step (fun _ ↦ .null)
    simp only [build, Product.mapLiterals, hadvance]
    exact congrArg₂ Select.step (ihQuery hquery) (ihStep hstep)
  | cons first rest ihFirst ihRest =>
    obtain ⟨hfirst, hrest⟩ := List.forall_mem_append.mp h
    exact congrArg₂ Node.cons (ihFirst hfirst) (ihRest hrest)
  | present node ih => exact congrArg Node.present (ih h)

end Script

/-! ## Statements and groups that are built alike -/

/-- The options kept with a statement hold no literals. -/
theorem Select.options_mapLiterals (change : Value → Value) (query : Select) :
    Select.options (query.mapLiterals change) = query.options := by
  cases query
  rfl

/-- The text of a result, or the reason why there is none. -/
def Prepared.textOf {text : Type} (result : Except BuildError (Prepared text)) :
    Except BuildError text :=
  Prepared.text <$> result

theorem textOf_prepare {text : Type} (placeholder : Placeholder) (rendering : Rendering text) :
    Prepared.textOf (prepare placeholder rendering) =
      answer (rendering.run (Params.empty placeholder)) := by
  unfold prepare Prepared.textOf
  cases rendering.run (Params.empty placeholder) <;> rfl

theorem Select.textOf_toSqlWith_mapLiterals (change : Value → Value) (query : Select)
    (options : Options) :
    Prepared.textOf (Select.toSqlWith (query.mapLiterals change) options) =
      Prepared.textOf (query.toSqlWith options) := by
  unfold Select.toSqlWith
  rw [textOf_prepare, textOf_prepare, options_mapLiterals]
  exact Node.answer_mapLiterals change _ query rfl rfl

theorem Group.textOf_toSqlWith_mapLiterals (change : Value → Value) (group : Group)
    (options : Options) :
    Prepared.textOf (Group.toSqlWith (group.mapLiterals change) options) =
      Prepared.textOf (group.toSqlWith options) := by
  unfold Group.toSqlWith
  rw [textOf_prepare, textOf_prepare]
  exact Part.answer_mapLiterals change _ (.group group) rfl rfl

/-- No value can influence a text. Parts that differ only in their literals have the same answer
and bind their own literals in order, equally many of them. Statements and groups that are built
by the same calls have the same text, unless a WHEN that asks for equality is passed the null
literal in one case only. -/
theorem text_independent_of_literals :
    (∀ (style : Style) (first second : Part) (params others : Params), first.SameShape second →
      params.placeholder = others.placeholder → params.size = others.size →
      answer ((first.render style).run params) = answer ((second.render style).run others) ∧
      ∃ count,
        params.Binds (first.literals.take count) (leftover ((first.render style).run params)) ∧
        others.Binds (second.literals.take count)
          (leftover ((second.render style).run others)) ∧
        ((answer ((first.render style).run params)).isOk →
          count = first.literals.length ∧ count = second.literals.length)) ∧
    ∀ (place : Type) (first second : place → Value) (options : Options),
      (∀ script : Script place (.node (.one .select)), script.NullsAgree first second →
        Prepared.textOf (Select.toSqlWith (script.build first) options) =
          Prepared.textOf (Select.toSqlWith (script.build second) options)) ∧
      ∀ script : Script place (.node (.many .entry)), script.NullsAgree first second →
        Prepared.textOf (Group.toSqlWith (script.build first) options) =
          Prepared.textOf (Group.toSqlWith (script.build second) options) := by
  constructor
  · intro style first second params others hshape hplaceholder hsize
    simp only [Params.binds_iff]
    exact Part.render_sameShape style hshape hplaceholder hsize
  · intro place first second options
    constructor
    · intro script hnulls
      have hbuild : Node.mapLiterals (fun _ ↦ .null) (script.build first) =
          Node.mapLiterals (fun _ ↦ .null) (script.build second) :=
        script.mapLiterals_build hnulls
      calc Prepared.textOf (Select.toSqlWith (script.build first) options)
          = Prepared.textOf (Select.toSqlWith
              (Node.mapLiterals (fun _ ↦ .null) (script.build first)) options) :=
            (Select.textOf_toSqlWith_mapLiterals _ _ options).symm
        _ = Prepared.textOf (Select.toSqlWith
              (Node.mapLiterals (fun _ ↦ .null) (script.build second)) options) := by
            rw [hbuild]
        _ = Prepared.textOf (Select.toSqlWith (script.build second) options) :=
            Select.textOf_toSqlWith_mapLiterals _ _ options
    · intro script hnulls
      have hbuild : Node.mapLiterals (fun _ ↦ .null) (script.build first) =
          Node.mapLiterals (fun _ ↦ .null) (script.build second) :=
        script.mapLiterals_build hnulls
      calc Prepared.textOf (Group.toSqlWith (script.build first) options)
          = Prepared.textOf (Group.toSqlWith
              (Node.mapLiterals (fun _ ↦ .null) (script.build first)) options) :=
            (Group.textOf_toSqlWith_mapLiterals _ _ options).symm
        _ = Prepared.textOf (Group.toSqlWith
              (Node.mapLiterals (fun _ ↦ .null) (script.build second)) options) := by
            rw [hbuild]
        _ = Prepared.textOf (Group.toSqlWith (script.build second) options) :=
            Group.textOf_toSqlWith_mapLiterals _ _ options

/-- `CASE WHEN a = ? THEN ? END` is the same text for any values of which the first is not null. -/
theorem text_independent_of_literals_in_when :
    (let script : Script Bool (.node (.many .entry)) :=
      .add .emptyGroup .and (.condition (.standalone (.caseWhen
        (.branch (.whenCompare (.name "a") .eq (.ofValue true)) (.literal false)) .nil .absent)))
    let first : Bool → Value := fun _ ↦ .int 1
    let second : Bool → Value := fun place ↦ if place then .string "x" else .null
    script.NullsAgree first second ∧
      Prepared.textOf (Group.toSqlWith (script.build first) Options.empty) =
        Prepared.textOf (Group.toSqlWith (script.build second) Options.empty)) ∧
    (let first : Part := .piece (.node (.literal (.bool true)))
    let second : Part := .piece (.node (.literal (.string "x")))
    first.SameShape second ∧
      answer ((first.render default).run default) =
        answer ((second.render default).run default)) := by
  have hnulls : (Script.add .emptyGroup .and (.condition (.standalone (.caseWhen
      (.branch (.whenCompare (.name "a") .eq (.ofValue true)) (.literal false)) .nil .absent))) :
        Script Bool (.node (.many .entry))).NullsAgree
      (fun _ ↦ .int 1) (fun place ↦ if place then .string "x" else .null) := by
    simp [Script.NullsAgree, Script.nullTests, Script.inspected]
  have hshape : Part.SameShape (.piece (.node (.literal (.bool true))))
      (.piece (.node (.literal (.string "x")))) := .node rfl
  exact ⟨⟨hnulls, (text_independent_of_literals.2 _ _ _ _).2 _ hnulls⟩,
    hshape, (text_independent_of_literals.1 _ _ _ _ _ hshape rfl rfl).1⟩

end SqlSelect
