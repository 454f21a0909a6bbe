import SqlSelect.Proofs.Vanishing

/-!
# Canonical groups

A condition group may hold entries that leave no trace in the text, and the first
entry that is written stands without its conjunction. The canonical form drops such
entries and lets AND lead to the first of those that are left, at every depth. It
has the same document.
-/

namespace SqlSelect

open Document

namespace Node

/-! ## Tidying one group -/

/-- The entries that are written. -/
def prune (entries : Group) : Group :=
  ofList (entries.toList.filter fun entry ↦ !vanishes entry)

def withConjunction (conjunction : Conjunction) : Node (.one .entry) → Node (.one .entry)
  | single _ condition => single conjunction condition
  | nested _ group => nested conjunction group

/-- AND leads to the first entry. -/
def lead : Group → Group
  | nil => nil
  | cons first rest => cons (first.withConjunction .and) rest

def tidy (entries : Group) : Group :=
  lead (prune entries)

/-- All groups within the node are tidied, from the inside out. A sequence of entries is tidied by
the node that it belongs to. -/
def canonical : {kind : Kind} → Node kind → Node kind
  | _, name path => name path
  | _, verbatim sql => verbatim sql
  | _, computed value => computed (canonical value)
  | _, subquery query => subquery (canonical query)
  | _, inline field => inline (canonical field)
  | _, literal value => literal value
  | _, compareValue op value => compareValue op value
  | _, compareList op values => compareList op values
  | _, compareField op field => compareField op (canonical field)
  | _, compareExpr op value => compareExpr op (canonical value)
  | _, nullTest negated => nullTest negated
  | _, existsTest query negated => existsTest (canonical query) negated
  | _, caseWhen first rest otherwise =>
    caseWhen (canonical first) (canonical rest) (canonical otherwise)
  | _, coalesce arguments => coalesce (canonical arguments)
  | _, jsonObject members => jsonObject (canonical members)
  | _, jsonArray element => jsonArray (canonical element)
  | _, raw sql => raw sql
  | _, paired field assertion => paired (canonical field) (canonical assertion)
  | _, standalone value => standalone (canonical value)
  | _, single conjunction condition => single conjunction (canonical condition)
  | _, nested conjunction group => nested conjunction (tidy (canonical group))
  | _, compareTest field assertion => compareTest (canonical field) (canonical assertion)
  | _, conditionTest condition => conditionTest (canonical condition)
  | _, groupTest group => groupTest (tidy (canonical group))
  | _, branch test result => branch (canonical test) (canonical result)
  | _, member key value => member key (canonical value)
  | _, column field label => column (canonical field) label
  | _, namedTable table label => namedTable table label
  | _, derivedTable query label => derivedTable (canonical query) label
  | _, join kind table condition => join kind (canonical table) condition
  | _, ordering field direction => ordering (canonical field) direction
  | _, select columns source joins filter groupKeys having orderings attributes =>
    select (canonical columns) (canonical source) (canonical joins) (tidy (canonical filter))
      (canonical groupKeys) (tidy (canonical having)) (canonical orderings) attributes
  | _, nil => nil
  | _, cons first rest => cons (canonical first) (canonical rest)
  | _, absent => absent
  | _, present node => present (canonical node)

end Node

/-- The canonical form of a group that stands alone. -/
def Group.canonical (group : Group) : Group :=
  Node.tidy (Node.canonical group)

/-! ## The document of a tidy group -/

namespace Node

variable (style : Style)

/-- The entries of a group that are written, each with its conjunction. -/
def survivors (entries : Group) : Except BuildError (List (Conjunction × Document)) :=
  (fun documents ↦ (entries.conjunctions.zip documents).filter fun entry ↦ !isBlank entry.2) <$>
    document style entries

theorem survivors_cons (first : Node (.one .entry)) (rest : Group) :
    survivors style (cons first rest) = do
      let document ← document style first
      let entries ← survivors style rest
      return if isBlank document then entries else (first.conjunction, document) :: entries := by
  unfold survivors
  rw [document]
  simp only [map_bind, bind_map_left, map_pure]
  refine bind_congr fun document ↦ bind_congr fun documents ↦ ?_
  have hzip : (conjunctions (cons first rest)).zip (document :: documents) =
      (first.conjunction, document) :: rest.conjunctions.zip documents := rfl
  rw [hzip]
  cases hblank : isBlank document <;> simp [hblank]

/-- Entries that vanish have a document: nothing in them can fail. -/
theorem document_of_vanishes {kind : Kind} (node : Node kind) (h : vanishes node) :
    ∃ result, document style node = .ok result := by
  induction node with
  | raw sql => exact ⟨_, rfl⟩
  | standalone _ ih | single _ _ ih => exact ih h
  | nested conjunction group ih =>
    obtain ⟨documents, hdocuments⟩ := ih h
    rw [document, hdocuments]
    exact ⟨_, rfl⟩
  | nil => exact ⟨[], rfl⟩
  | cons first rest ihFirst ihRest =>
    obtain ⟨hfirst, hrest⟩ := Bool.and_eq_true_iff.mp h
    obtain ⟨document, hdocument⟩ := ihFirst hfirst
    obtain ⟨documents, hdocuments⟩ := ihRest hrest
    rw [Node.document, hdocument, hdocuments]
    exact ⟨_, rfl⟩
  | _ => cases h

theorem prune_cons (first : Node (.one .entry)) (rest : Group) :
    prune (cons first rest) = if vanishes first then prune rest else cons first (prune rest) := by
  unfold prune
  cases hvanishes : vanishes first <;> simp [hvanishes, ofList]

/-- Entries that vanish do not survive, so nothing is lost without them. -/
theorem survivors_prune : ∀ entries : Group,
    survivors style (prune entries) = survivors style entries
  | nil => rfl
  | cons first rest => by
    have hrest := survivors_prune rest
    rw [prune_cons, survivors_cons]
    cases hvanishes : vanishes first with
    | true =>
      obtain ⟨document, hdocument⟩ := document_of_vanishes style first hvanishes
      have hblank : isBlank document = vanishes first :=
        isBlank_entry style first document hdocument
      rw [if_pos rfl, hrest, hdocument]
      change _ = (do
        let entries ← survivors style rest
        return if isBlank document then entries else (first.conjunction, document) :: entries)
      simp [hblank, hvanishes]
    | false => rw [if_neg (by simp), survivors_cons, hrest]

theorem vanishes_of_prune_eq_cons : ∀ {entries rest : Group} {first : Node (.one .entry)},
    prune entries = cons first rest → vanishes first = false
  | cons entry entries, rest, first, h => by
    rw [prune_cons] at h
    cases hvanishes : vanishes entry with
    | true =>
      rw [if_pos hvanishes] at h
      exact vanishes_of_prune_eq_cons h
    | false =>
      rw [if_neg (by simp [hvanishes])] at h
      cases h
      exact hvanishes

theorem group_document_eq (entries : Group) :
    Group.document style entries = Reference.group style <$> survivors style entries := by
  unfold Group.document survivors
  rw [Functor.map_map]
  simp [Reference.group, List.filter_filter]

theorem document_withConjunction (conjunction : Conjunction) (entry : Node (.one .entry)) :
    document style (entry.withConjunction conjunction) = document style entry := by
  cases entry <;> rfl

/-- The conjunction of the first entry is not written. -/
theorem group_document_tidy (entries : Group) :
    Group.document style (tidy entries) = Group.document style entries := by
  have hprune : Group.document style (prune entries) = Group.document style entries := by
    rw [group_document_eq, group_document_eq, survivors_prune]
  rw [← hprune, tidy]
  cases hentries : prune entries with
  | nil => rfl
  | cons first rest =>
    have hvanishes := vanishes_of_prune_eq_cons hentries
    rw [lead, group_document_eq, group_document_eq, survivors_cons, survivors_cons,
      document_withConjunction]
    simp only [map_bind]
    refine (isBlank_entry style first).bind_congr fun document hblank ↦ ?_
    simp [Reference.group, hblank, hvanishes]

/-! ## The document of a canonical node -/

theorem isEmpty_canonical {category : Category} : ∀ nodes : Node (.many category),
    (canonical nodes).isEmpty = nodes.isEmpty
  | nil => rfl
  | cons _ _ => rfl

theorem isComputed_canonical (field : Field) : (canonical field).isComputed = field.isComputed := by
  cases field <;> rfl

theorem fieldAllowed_canonical (op : Operator) (field : Field) :
    fieldAllowed op (canonical field) = fieldAllowed op field := by
  cases field <;> rfl

theorem conjunctions_canonical : ∀ entries : Group,
    (canonical entries).conjunctions = entries.conjunctions
  | nil => rfl
  | cons (single conjunction _) rest | cons (nested conjunction _) rest =>
    congrArg (conjunction :: ·) (conjunctions_canonical rest)

/-- A statement needs the documents of its groups only put together. -/
theorem document_select (columns : Node (.many .column)) (source : Table)
    (joins : Node (.many .join)) (filter : Group) (groupKeys : Node (.many .field))
    (having : Group) (orderings : Node (.many .ordering)) (attributes : Attributes) :
    document style
        (select columns (present source) joins filter groupKeys having orderings attributes) = do
      let head ← Reference.head style attributes.head (document style columns)
      let source ← document style source
      let joins ← document style joins
      let filter ← Group.document style filter
      let groupKeys ← document style groupKeys
      let having ← Group.document style having
      let orderings ← document style orderings
      return Reference.statement style { head, source, joins, filter, groupKeys, having, orderings }
        attributes := by
  simp [document, Group.document]

theorem document_nested (conjunction : Conjunction) (entries : Group) :
    document style (nested conjunction entries) =
      (fun document? ↦ document?.elim [] Reference.enclosed) <$> Group.document style entries := by
  simp [document, Group.document]

theorem document_groupTest (entries : Group) :
    document style (groupTest entries) =
      Group.document style entries >>= fun
        | some document => pure document
        | none => throw .emptyCaseCondition := by
  rw [document, Group.document]
  cases document style entries <;> rfl

theorem document_canonical {kind : Kind} (node : Node kind) :
    document style (canonical node) = document style node := by
  -- What is known of a sequence of entries carries over to the group that it makes up.
  have hgroup : ∀ entries : Group, document style (canonical entries) = document style entries →
      Group.document style (tidy (canonical entries)) = Group.document style entries := by
    intro entries hentries
    rw [group_document_tidy]
    unfold Group.document
    rw [hentries, conjunctions_canonical]
  induction node with
  | name _ | verbatim _ | literal _ | compareValue _ _ | compareList _ _ | nullTest _ | raw _
    | namedTable _ _ | nil | absent => rfl
  | computed _ ih | inline _ ih | standalone _ ih | single _ _ ih | conditionTest _ ih => exact ih
  | subquery _ ih | existsTest _ _ ih | jsonObject _ ih | jsonArray _ ih | member _ _ ih
    | column _ _ ih | derivedTable _ _ ih | join _ _ _ ih | ordering _ _ ih | present _ ih =>
    simp only [canonical, document, ih]
  | compareField op field ih =>
    rw [canonical, document, document, fieldAllowed_canonical, ih]
  | compareExpr op value ih =>
    rw [canonical, document, document, ih]
  | caseWhen _ _ _ ihFirst ihRest ihOtherwise =>
    simp only [canonical, document, ihFirst, ihRest, ihOtherwise]
  | coalesce arguments ih =>
    rw [canonical, document, document, isEmpty_canonical, ih]
  | paired field assertion ihField ihAssertion =>
    rw [canonical, document, document, isComputed_canonical, ihField, ihAssertion]
  | compareTest _ _ ihLeft ihRight | branch _ _ ihLeft ihRight | cons _ _ ihLeft ihRight =>
    simp only [canonical, document, ihLeft, ihRight]
  | nested conjunction entries ih =>
    rw [canonical, document_nested, document_nested, hgroup entries ih]
  | groupTest entries ih =>
    rw [canonical, document_groupTest, document_groupTest, hgroup entries ih]
  | select columns source joins filter groupKeys having orderings attributes ihColumns ihSource
      ihJoins ihFilter ihGroupKeys ihHaving ihOrderings =>
    cases source with
    | absent => rfl
    | present source =>
      have hsource : document style (canonical source) = document style source :=
        map_some_injective (by rw [← document_present, ← document_present]; exact ihSource)
      rw [canonical, canonical, document_select, document_select, ihColumns, hsource, ihJoins,
        hgroup filter ihFilter, ihGroupKeys, hgroup having ihHaving, ihOrderings]

end Node

/-- The canonical form of a group has the document of the group. -/
theorem Group.document_canonical (style : Style) (group : Group) :
    Group.document style (Group.canonical group) = Group.document style group := by
  calc Group.document style (Group.canonical group)
      = Group.document style (Node.canonical group) := Node.group_document_tidy style _
    _ = Group.document style group := by
      unfold Group.document
      rw [Node.document_canonical, Node.conjunctions_canonical]

end SqlSelect
