import SqlSelect.Proofs.Reference

/-!
# Entries that vanish

An entry of a condition group leaves no trace in the text if it is a bare
expression of empty text or a group all of whose entries vanish. Whether it does
can be told from the tree alone.
-/

namespace SqlSelect

open Document

namespace Document

@[simp] theorem isBlank_nil : isBlank [] :=
  rfl

@[simp] theorem isBlank_fixed (text : String) : isBlank (fixed text) = text.isEmpty := by
  simp [fixed, isBlank]

@[simp] theorem isBlank_literal (value : Value) : isBlank (literal value) = false :=
  rfl

@[simp] theorem isBlank_append (first second : Document) :
    isBlank (first ++ second) = (isBlank first && isBlank second) := by
  induction first with
  | nil => simp
  | cons chunk rest ih => cases chunk <;> simp [isBlank, ih, Bool.and_assoc]

@[simp] theorem isBlank_enclosed (document : Document) :
    isBlank (Reference.enclosed document) = false := by
  simp [Reference.enclosed]

end Document

namespace Node

/-- Whether an entry, a condition or an expression has empty text, or all of a sequence has. -/
def vanishes : {kind : Kind} → Node kind → Bool
  | _, raw sql => sql.isEmpty
  | _, standalone value => vanishes value
  | _, single _ condition => vanishes condition
  | _, nested _ group => vanishes group
  | _, nil => true
  | _, cons first rest => vanishes first && vanishes rest
  | _, _ => false

variable (style : Style)

theorem isBlank_comparedList (op : Operator) (values : List Value) :
    Ensures (fun document ↦ isBlank document = false) (Reference.comparedList op values) := by
  unfold Reference.comparedList
  split <;> first
    | exact .throw _
    | exact .pure (by simp)

theorem isBlank_expr (value : Expr) :
    Ensures (fun document ↦ isBlank document = vanishes value) (document style value) := by
  cases value with
  | compareValue op value =>
    rw [document]
    split
    · exact .throw _
    · exact .pure (by simp [vanishes])
  | compareList op values => exact isBlank_comparedList op values
  | compareField op field =>
    rw [document]
    split
    · exact .of_next fun field ↦ .pure (by simp [vanishes])
    · exact .throw _
  | compareExpr op value =>
    rw [document]
    split
    · exact .throw _
    · exact .of_next fun value ↦ .pure (by simp [vanishes])
  | nullTest negated => exact .pure (by cases negated <;> rfl)
  | existsTest query negated =>
    rw [document]
    exact .of_next fun query ↦ .pure (by simp [vanishes])
  | caseWhen first rest otherwise =>
    rw [document]
    exact .of_next fun first ↦ .of_next fun rest ↦ .of_next fun otherwise ↦
      .pure (by simp [vanishes])
  | coalesce arguments =>
    rw [document]
    split
    · exact .throw _
    · exact .of_next fun arguments ↦ .pure (by simp [vanishes])
  | jsonObject members =>
    rw [document]
    exact .of_next fun members ↦ .pure (by simp [vanishes])
  | jsonArray element =>
    rw [document]
    exact .of_next fun element ↦ .pure (by simp [vanishes])
  | raw sql => exact .pure (by simp [vanishes])

theorem isBlank_condition (condition : Condition) :
    Ensures (fun document ↦ isBlank document = vanishes condition) (document style condition) := by
  cases condition with
  | paired field assertion =>
    rw [document]
    exact .of_next fun left ↦ .of_next fun right ↦ .pure (by simp [vanishes])
  | standalone value => exact isBlank_expr style value

/-- A group that has a document has one exactly if one of its entries has text. -/
theorem isNone_group (entries : List (Conjunction × Document)) :
    (Reference.group style entries).isNone = entries.all fun entry ↦ isBlank entry.2 := by
  unfold Reference.group
  induction entries with
  | nil => rfl
  | cons entry entries ih =>
    cases hblank : isBlank entry.2 with
    | true =>
      rw [List.filter_cons_of_neg (by simp [hblank]), ih, List.all_cons, hblank, Bool.true_and]
    | false =>
      rw [List.filter_cons_of_pos (by simp [hblank]), List.all_cons, hblank]
      rfl

theorem isNone_group_zip {conjunctions : List Conjunction} {documents : List Document}
    (hzip : (conjunctions.zip documents).map Prod.snd = documents) :
    (Reference.group style (conjunctions.zip documents)).isNone = documents.all isBlank := by
  have hall := List.all_map (f := Prod.snd) (l := conjunctions.zip documents) (p := isBlank)
  rw [hzip] at hall
  rw [isNone_group, hall]
  rfl

theorem isBlank_elim_enclosed (document? : Option Document) :
    isBlank (document?.elim [] Reference.enclosed) = document?.isNone := by
  cases document? <;> simp

/-- A nested group is blank if there is nothing to enclose. -/
theorem isBlank_nested (conjunction : Conjunction) {group : Group}
    (hgroup : Ensures (fun documents ↦ documents.all isBlank = vanishes group)
      (document style group)) :
    Ensures (fun entry ↦ isBlank entry = vanishes group)
      (document style (nested conjunction group)) := by
  rw [document]
  refine ((map_snd_zip_conjunctions style group).and hgroup).bind fun documents hdocuments ↦ ?_
  obtain ⟨hzip, hblank⟩ := hdocuments
  have hnone := isNone_group_zip style hzip
  refine .pure ?_
  rw [isBlank_elim_enclosed, hnone, hblank]

theorem isBlank_entries : ∀ entries : Group,
    Ensures (fun documents ↦ documents.all isBlank = vanishes entries) (document style entries)
  | nil => .pure rfl
  | cons (single conjunction condition) rest => by
    rw [document]
    refine (isBlank_condition style condition).bind fun first hfirst ↦ ?_
    refine (isBlank_entries rest).bind fun documents hrest ↦ .pure ?_
    simp [vanishes, hfirst, hrest]
  | cons (nested conjunction group) rest => by
    have hentry := isBlank_nested style conjunction (isBlank_entries group)
    rw [document]
    refine hentry.bind fun first hfirst ↦ ?_
    refine (isBlank_entries rest).bind fun documents hrest ↦ .pure ?_
    simp [vanishes, hfirst, hrest]

theorem isBlank_entry (entry : Node (.one .entry)) :
    Ensures (fun document ↦ isBlank document = vanishes entry) (document style entry) := by
  cases entry with
  | single conjunction condition => exact isBlank_condition style condition
  | nested conjunction group => exact isBlank_nested style conjunction (isBlank_entries style group)

/-- A group is left out of the text exactly if it vanishes. -/
theorem isNone_group_document (entries : Group) :
    Ensures (fun documents ↦
        (Reference.group style (entries.conjunctions.zip documents)).isNone = vanishes entries)
      (document style entries) := by
  intro documents hdocuments
  have hzip := map_snd_zip_conjunctions style entries documents hdocuments
  rw [isNone_group_zip style hzip, isBlank_entries style entries documents hdocuments]

end Node

end SqlSelect
