import SqlSelect.Proofs.Reference

/-!
# The strings in a tree

The strings that a tree is given end up in the text in one of three roles: as an
identifier, as a fragment that stands in the text as it is, or as a key of a JSON
object. A policy asks something of the strings of each role.
-/

namespace SqlSelect

structure Policy where
  identifier : String → Prop
  fragment : String → Prop
  key : String → Prop

namespace Node

/-- Every string in the tree is as the policy asks. -/
def Obeys (policy : Policy) : {kind : Kind} → Node kind → Prop
  | _, name path => policy.identifier path
  | _, verbatim sql => policy.fragment sql
  | _, computed value => Obeys policy value
  | _, subquery query => Obeys policy query
  | _, inline field => Obeys policy field
  | _, literal _ => True
  | _, compareValue _ _ => True
  | _, compareList _ _ => True
  | _, compareField _ field => Obeys policy field
  | _, compareExpr _ value => Obeys policy value
  | _, nullTest _ => True
  | _, existsTest query _ => Obeys policy query
  | _, caseWhen first rest otherwise =>
    Obeys policy first ∧ Obeys policy rest ∧ Obeys policy otherwise
  | _, coalesce arguments => Obeys policy arguments
  | _, jsonObject members => Obeys policy members
  | _, jsonArray element => Obeys policy element
  | _, raw sql => policy.fragment sql
  | _, paired field assertion => Obeys policy field ∧ Obeys policy assertion
  | _, standalone value => Obeys policy value
  | _, single _ condition => Obeys policy condition
  | _, nested _ group => Obeys policy group
  | _, compareTest field assertion => Obeys policy field ∧ Obeys policy assertion
  | _, conditionTest condition => Obeys policy condition
  | _, groupTest group => Obeys policy group
  | _, branch test result => Obeys policy test ∧ Obeys policy result
  | _, member key value => policy.key key ∧ Obeys policy value
  | _, column field label => Obeys policy field ∧ ∀ given ∈ label, policy.identifier given
  | _, namedTable table label =>
    policy.identifier table ∧ ∀ given ∈ label, policy.identifier given
  | _, derivedTable query label => Obeys policy query ∧ policy.identifier label
  | _, join _ table condition => Obeys policy table ∧ policy.fragment condition
  | _, ordering field _ => Obeys policy field
  | _, select columns source joins filter groupKeys having orderings attributes =>
    Obeys policy columns ∧ Obeys policy source ∧ Obeys policy joins ∧ Obeys policy filter ∧
      Obeys policy groupKeys ∧ Obeys policy having ∧ Obeys policy orderings ∧
      ∀ given ∈ attributes.head, policy.fragment given
  | _, nil => True
  | _, cons first rest => Obeys policy first ∧ Obeys policy rest
  | _, absent => True
  | _, present node => Obeys policy node

end Node

namespace Part

def Obeys (policy : Policy) : Part → Prop
  | piece (.node one) => one.Obeys policy
  | piece (.columns items) => items.Obeys policy
  | piece (.groupKeys items) => items.Obeys policy
  | piece (.orderings items) => items.Obeys policy
  | group entries => entries.Obeys policy

end Part

end SqlSelect
