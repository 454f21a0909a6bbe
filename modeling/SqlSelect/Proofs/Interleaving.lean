import SqlSelect.Call

/-!
# Calls on different clauses

A step changes one clause and looks at no other, so the order of steps on different
clauses does not matter. Where steps add to their clause their own order is kept, and
where they replace it the last of them wins.
-/

namespace SqlSelect

/-- What a step changes. -/
inductive Clause where
  | options
  | head
  | columns
  | source
  | joins
  | filter
  | groupKeys
  | having
  | orderings
  | limit
  | offset
deriving DecidableEq, Repr

namespace Clause

/-- Whether steps add to the clause; otherwise each replaces what was set before. -/
def Collects : Clause → Prop
  | columns | joins | filter | groupKeys | having | orderings => True
  | options | head | source | limit | offset => False

end Clause

namespace Step

def clause : Step → Clause
  | options _ => .options
  | head _ => .head
  | column _ _ => .columns
  | source _ => .source
  | join _ _ _ => .joins
  | filter _ => .filter
  | groupKey _ => .groupKeys
  | having _ => .having
  | ordering _ _ => .orderings
  | limit _ => .limit
  | offset _ => .offset

end Step

namespace Clauses

/-- One clause, with nothing in the others. -/
def only (clauses : Clauses) : Clause → Clauses
  | .options => { attributes := { options := clauses.attributes.options } }
  | .head => { attributes := { head := clauses.attributes.head } }
  | .columns => { columns := clauses.columns }
  | .source => { source := clauses.source }
  | .joins => { joins := clauses.joins }
  | .filter => { filter := clauses.filter }
  | .groupKeys => { groupKeys := clauses.groupKeys }
  | .having => { having := clauses.having }
  | .orderings => { orderings := clauses.orderings }
  | .limit => { attributes := { limit := clauses.attributes.limit } }
  | .offset => { attributes := { offset := clauses.attributes.offset } }

theorem ext_of_only {clauses other : Clauses}
    (h : ∀ clause, clauses.only clause = other.only clause) : clauses = other := by
  have hoptions := h .options
  have hhead := h .head
  have hcolumns := h .columns
  have hsource := h .source
  have hjoins := h .joins
  have hfilter := h .filter
  have hgroupKeys := h .groupKeys
  have hhaving := h .having
  have horderings := h .orderings
  have hlimit := h .limit
  have hoffset := h .offset
  obtain ⟨_, _, _, _, _, _, _, _, _, _, _⟩ := clauses
  simp_all [only]

/-! ## One step -/

/-- A step leaves the other clauses alone. -/
theorem only_step_of_ne (clauses : Clauses) {step : Step} {clause : Clause}
    (h : step.clause ≠ clause) : (clauses.step step).only clause = clauses.only clause := by
  cases step <;> cases clause <;> first
    | rfl
    | exact absurd rfl h

/-- What a step makes of its clause does not depend on the other clauses. -/
theorem only_step_congr {clauses other : Clauses} (step : Step)
    (h : clauses.only step.clause = other.only step.clause) :
    (clauses.step step).only step.clause = (other.step step).only step.clause := by
  cases step <;> simp_all [only, Clauses.step, Step.clause, setAttributes]

/-- A step that replaces its clause forgets what it was. -/
theorem only_step_of_not_collects (clauses other : Clauses) {step : Step}
    (h : ¬step.clause.Collects) :
    (clauses.step step).only step.clause = (other.step step).only step.clause := by
  cases step <;> first
    | rfl
    | exact absurd trivial h

/-! ## Many steps -/

def run (clauses : Clauses) (steps : List Step) : Clauses :=
  steps.foldl step clauses

theorem only_run_congr {clauses other : Clauses} {clause : Clause} {steps : List Step}
    (hsteps : ∀ step ∈ steps, step.clause = clause) (h : clauses.only clause = other.only clause) :
    (clauses.run steps).only clause = (other.run steps).only clause := by
  induction steps generalizing clauses other with
  | nil => exact h
  | cons step steps ih =>
    obtain ⟨rfl, hlater⟩ := List.forall_mem_cons.mp hsteps
    exact ih hlater (only_step_congr step h)

/-- A clause is what the steps on it make of it. -/
theorem only_run_filter (clauses : Clauses) (steps : List Step) (clause : Clause) :
    (clauses.run steps).only clause =
      (clauses.run (steps.filter (·.clause = clause))).only clause := by
  induction steps generalizing clauses with
  | nil => rfl
  | cons step steps ih =>
    have hfiltered : ∀ later ∈ steps.filter (·.clause = clause), later.clause = clause := by
      simp
    calc ((clauses.step step).run steps).only clause
        = ((clauses.step step).run (steps.filter (·.clause = clause))).only clause := ih _
      _ = (clauses.run ((step :: steps).filter (·.clause = clause))).only clause := by
        by_cases hclause : step.clause = clause
        · rw [List.filter_cons_of_pos (by simp [hclause])]
          rfl
        · rw [List.filter_cons_of_neg (by simp [hclause])]
          exact only_run_congr hfiltered (only_step_of_ne clauses hclause)

/-- Of steps that replace one clause, only the last matters. -/
theorem only_run_of_getLast? (clauses : Clauses) {clause : Clause} (hclause : ¬clause.Collects)
    {steps others : List Step} (hsteps : ∀ step ∈ steps, step.clause = clause)
    (hlast : steps.getLast? = others.getLast?) :
    (clauses.run steps).only clause = (clauses.run others).only clause := by
  cases hgiven : others.getLast? with
  | none =>
    rw [hgiven] at hlast
    rw [List.getLast?_eq_none_iff.mp hgiven, List.getLast?_eq_none_iff.mp hlast]
  | some last =>
    rw [hgiven] at hlast
    obtain ⟨before, rfl⟩ := List.getLast?_eq_some_iff.mp hlast
    obtain ⟨earlier, rfl⟩ := List.getLast?_eq_some_iff.mp hgiven
    obtain rfl : last.clause = clause := hsteps last (by simp)
    simp only [run, List.foldl_append, List.foldl_cons, List.foldl_nil]
    exact only_step_of_not_collects _ _ hclause

/-- The clauses that steps lead to are known from the steps on each clause. -/
theorem run_eq_of_steps_on_clauses (clauses : Clauses) {steps others : List Step}
    (hcollected : ∀ clause : Clause, clause.Collects →
      steps.filter (·.clause = clause) = others.filter (·.clause = clause))
    (hreplaced : ∀ clause : Clause, ¬clause.Collects →
      (steps.filter (·.clause = clause)).getLast? = (others.filter (·.clause = clause)).getLast?) :
    clauses.run steps = clauses.run others := by
  apply ext_of_only
  intro clause
  rw [only_run_filter clauses steps, only_run_filter clauses others]
  by_cases hclause : clause.Collects
  · rw [hcollected clause hclause]
  · exact only_run_of_getLast? clauses hclause (by simp) (hreplaced clause hclause)

end Clauses

namespace Select

theorem build_eq_ofClauses (steps : List Step) : build steps = ofClauses (Clauses.run {} steps) :=
  List.foldl_hom ofClauses fun _ _ ↦ rfl

/-- The steps that calls make on one clause. -/
def stepsOn (clause : Clause) (calls : List Call) : List Step :=
  (calls.map Call.step).filter (·.clause = clause)

/-- Calls on different clauses can be interleaved in any way. If the calls that add to a clause are
the same in the same order and the last call that replaces a clause is the same, so are the
statements, and with them their texts, arguments and errors. -/
theorem calls_on_different_clauses_commute {calls others : List Call}
    (hcollected : ∀ clause : Clause, clause.Collects → stepsOn clause calls = stepsOn clause others)
    (hreplaced : ∀ clause : Clause, ¬clause.Collects →
      (stepsOn clause calls).getLast? = (stepsOn clause others).getLast?) :
    construct calls = construct others ∧
      ∀ options, (construct calls).toSqlWith options = (construct others).toSqlWith options := by
  have hclauses := Clauses.run_eq_of_steps_on_clauses {} hcollected hreplaced
  have hsame : construct calls = construct others := by
    rw [construct, construct, build_eq_ofClauses, build_eq_ofClauses, hclauses]
  exact ⟨hsame, fun options ↦ by rw [hsame]⟩

/-- Two forms of one join, and a table and a limit that are replaced later. -/
theorem calls_on_different_clauses_commute_around_join :
    let calls : List Call :=
      [.limit 5, .source "old", .column (.name "a"), .leftJoin "t" "x = y", .limit 2,
        .sourceAs "u" "v", .columnAs (.name "b") "c", .filter (.name "a") (.value (.int 1))]
    let others : List Call :=
      [.filter (.name "a") (.value (.int 1)), .join (some .left) "t" "x = y",
        .column (.name "a"), .columnAs (.name "b") "c", .sourceAs "u" "v", .limit 2]
    (∀ clause : Clause, clause.Collects → stepsOn clause calls = stepsOn clause others) ∧
      (∀ clause : Clause, ¬clause.Collects →
        (stepsOn clause calls).getLast? = (stepsOn clause others).getLast?) ∧
      construct calls = construct others := by
  intro calls others
  have hcollected : ∀ clause : Clause, clause.Collects →
      stepsOn clause calls = stepsOn clause others := by
    intro clause _
    cases clause <;> first
      | rfl
      | contradiction
  have hreplaced : ∀ clause : Clause, ¬clause.Collects →
      (stepsOn clause calls).getLast? = (stepsOn clause others).getLast? := by
    intro clause _
    cases clause <;> rfl
  exact ⟨hcollected, hreplaced, (calls_on_different_clauses_commute hcollected hreplaced).1⟩

end Select

end SqlSelect
