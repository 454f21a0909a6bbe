import SqlSelect.Proofs.Visit

/-!
# The literals of a tree

Literals can be listed and changed apart from the tree that carries them. The
reference and the visit treat them as opaque: a change of the literals changes the
literals of the document and of the visit in the same way, and nothing else.
-/

namespace SqlSelect

open Document

/-! ## Listing the literals -/

namespace Node

/-- The literals from left to right. The columns under a head that is given are no part of the
statement, so neither are their literals. -/
def literals : {kind : Kind} → Node kind → List Value
  | _, name _ | _, verbatim _ | _, nullTest _ | _, raw _ | _, namedTable _ _ => []
  | _, computed value => literals value
  | _, subquery query => literals query
  | _, inline field => literals field
  | _, literal value => [value]
  | _, compareValue _ value => [value]
  | _, compareList _ values => values
  | _, compareField _ field => literals field
  | _, compareExpr _ value => literals value
  | _, existsTest query _ => literals query
  | _, caseWhen first rest otherwise => literals first ++ (literals rest ++ literals otherwise)
  | _, coalesce arguments => literals arguments
  | _, jsonObject members => literals members
  | _, jsonArray element => literals element
  | _, paired field assertion => literals field ++ literals assertion
  | _, standalone value => literals value
  | _, single _ condition => literals condition
  | _, nested _ group => literals group
  | _, compareTest field assertion => literals field ++ literals assertion
  | _, conditionTest condition => literals condition
  | _, groupTest group => literals group
  | _, branch test result => literals test ++ literals result
  | _, member _ value => literals value
  | _, column field _ => literals field
  | _, derivedTable query _ => literals query
  | _, join _ table _ => literals table
  | _, ordering field _ => literals field
  | _, select columns source joins filter groupKeys having orderings attributes =>
    (if attributes.head.isSome then [] else literals columns) ++
      (literals source ++ (literals joins ++ (literals filter ++ (literals groupKeys ++
        (literals having ++ literals orderings)))))
  | _, nil => []
  | _, cons first rest => literals first ++ literals rest
  | _, absent => []
  | _, present node => literals node

end Node

/-- A visit meets values in their order, and all of them unless it meets a fault. -/
structure Visit.Reads (visit : Visit) (values : List Value) : Prop where
  bound_prefix : visit.bound <+: values
  bound_eq : visit.fault? = none → visit.bound = values

namespace Visit.Reads

variable {visit nextVisit : Visit} {values nextValues : List Value}

theorem ofValues (values : List Value) : Reads (Visit.ofValues values) values :=
  ⟨by simp, fun _ ↦ by simp⟩

theorem nil : Reads [] [] :=
  ofValues []

/-- What stands behind a fault is not met. -/
theorem fault (error : BuildError) (values : List Value) : Reads [.fault error] values :=
  ⟨List.nil_prefix, nofun⟩

theorem append (h : Reads visit values) (hnext : Reads nextVisit nextValues) :
    Reads (visit ++ nextVisit) (values ++ nextValues) := by
  cases hfault : visit.fault? with
  | some error =>
    constructor
    · rw [Visit.bound_append_of_fault nextVisit hfault]
      exact h.bound_prefix.trans (List.prefix_append values nextValues)
    · simp [hfault]
  | none =>
    constructor
    · rw [Visit.bound_append_of_no_fault nextVisit hfault, h.bound_eq hfault]
      exact (List.prefix_append_right_inj values).mpr hnext.bound_prefix
    · intro hnone
      rw [Visit.fault?_append, hfault, Option.none_or] at hnone
      rw [Visit.bound_append_of_no_fault nextVisit hfault, h.bound_eq hfault,
        hnext.bound_eq hnone]

end Visit.Reads

theorem visitList_reads (op : Operator) (values : List Value) :
    (visitList op values).Reads values := by
  unfold visitList
  split <;> first
    | exact .fault _ _
    | exact .ofValues _

namespace Node

theorem visit_reads {kind : Kind} (node : Node kind) : (visit node).Reads (literals node) := by
  induction node with
  | name _ | verbatim _ | nullTest _ | raw _ | namedTable _ _ | nil | absent => exact .nil
  | computed _ ih | subquery _ ih | inline _ ih | existsTest _ _ ih | jsonObject _ ih
    | jsonArray _ ih | standalone _ ih | single _ _ ih | nested _ _ ih | conditionTest _ ih
    | member _ _ ih | column _ _ ih | derivedTable _ _ ih | join _ _ _ ih | ordering _ _ ih
    | present _ ih => exact ih
  | literal value => exact .ofValues [value]
  | compareValue op value =>
    rw [visit]
    split
    · exact .fault _ _
    · exact .ofValues [value]
  | compareList op values => exact visitList_reads op values
  | compareField op field ih =>
    rw [visit]
    split
    · exact ih
    · exact .fault _ _
  | compareExpr op value ih | coalesce arguments ih =>
    rw [visit]
    split
    · exact .fault _ _
    · exact ih
  | caseWhen first rest otherwise ihFirst ihRest ihOtherwise =>
    exact ihFirst.append (ihRest.append ihOtherwise)
  | paired _ _ ihLeft ihRight | compareTest _ _ ihLeft ihRight | branch _ _ ihLeft ihRight
    | cons _ _ ihLeft ihRight => exact ihLeft.append ihRight
  | groupTest group ih =>
    rw [visit, literals, ← List.append_nil (literals group)]
    refine ih.append ?_
    split
    · exact .fault _ _
    · exact .nil
  | select columns source joins filter groupKeys having orderings attributes ihColumns ihSource
      ihJoins ihFilter ihGroupKeys ihHaving ihOrderings =>
    cases source with
    | absent => exact .fault _ _
    | present source =>
      have hcolumns : (if attributes.head.isSome then [] else visit columns : Visit).Reads
          (if attributes.head.isSome then [] else literals columns) := by
        split
        · exact .nil
        · exact ihColumns
      exact hcolumns.append (ihSource.append (ihJoins.append (ihFilter.append
        (ihGroupKeys.append (ihHaving.append ihOrderings)))))

end Node

end SqlSelect
