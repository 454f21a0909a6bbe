import SqlSelect.Proofs.Canonical
import SqlSelect.Proofs.Indistinguishable
import SqlSelect.Proofs.Readback

/-!
# Filters can be read back

A filter is a condition group that compares names with literals. The parentheses,
quotes, operators and conjunctions in its text determine it up to its canonical
form, given the arguments. The text is read from the left, and each part of it says
by itself where it ends.
-/

namespace SqlSelect

open Document

namespace Node

/-- A test for null, or a comparison with a literal or a list of literals. -/
def comparesLiterals : Expr → Bool
  | compareValue _ _ | compareList _ _ | nullTest _ => true
  | _ => false

/-- An unquoted name compared with literals. -/
inductive IsComparison : Condition → Prop
  | intro {path : String} {assertion : Expr} (hname : Unquoted path.toList)
      (hliterals : comparesLiterals assertion) : IsComparison (paired (name path) assertion)

/-- Comparisons in groups of any depth. -/
def IsFilter : {kind : Kind} → Node kind → Prop
  | _, single _ condition => IsComparison condition
  | _, nested _ group => IsFilter group
  | _, nil => True
  | _, cons first rest => IsFilter first ∧ IsFilter rest
  | _, _ => False

/-! ## Filters in canonical form -/

def startsWithAnd : Group → Bool
  | nil => false
  | cons first _ => first.conjunction == .and

/-- A filter in which every nested group has an entry and starts with AND. -/
def IsTidyFilter : {kind : Kind} → Node kind → Prop
  | _, single _ condition => IsComparison condition
  | _, nested _ group => startsWithAnd group ∧ IsTidyFilter group
  | _, nil => True
  | _, cons first rest => IsTidyFilter first ∧ IsTidyFilter rest
  | _, _ => False

theorem isTidyFilter_lead {entries : Group} (h : IsTidyFilter entries) :
    IsTidyFilter (lead entries) := by
  cases entries with
  | nil => exact h
  | cons first rest =>
    cases first with
    | single conjunction condition => exact h
    | nested conjunction group => exact h

theorem startsWithAnd_lead {entries : Group} (h : vanishes (lead entries) = false) :
    startsWithAnd (lead entries) := by
  cases entries with
  | nil => cases h
  | cons first rest => cases first <;> rfl

theorem canonical_of_comparesLiterals {assertion : Expr} (h : comparesLiterals assertion) :
    canonical assertion = assertion := by
  cases assertion <;> first
    | rfl
    | cases h

/-- Recursion on the group: what is left of a nested group starts with AND, or else the group is
pruned itself. -/
theorem isTidyFilter_prune_canonical : ∀ entries : Group, IsFilter entries →
    IsTidyFilter (prune (canonical entries))
  | nil, _ => trivial
  | cons (single conjunction condition) rest, h => by
    obtain ⟨hcondition, hrest⟩ := h
    cases hcondition with
    | intro hname hliterals =>
      have hassertion := canonical_of_comparesLiterals hliterals
      rw [canonical, prune_cons, canonical, canonical, canonical, hassertion]
      exact ⟨.intro hname hliterals, isTidyFilter_prune_canonical rest hrest⟩
  | cons (nested conjunction group) rest, h => by
    obtain ⟨hgroup, hrest⟩ := h
    have htidy := isTidyFilter_lead (isTidyFilter_prune_canonical group hgroup)
    rw [canonical, prune_cons, canonical]
    cases hvanishes : vanishes (nested conjunction (tidy (canonical group))) with
    | true =>
      rw [if_pos rfl]
      exact isTidyFilter_prune_canonical rest hrest
    | false =>
      rw [if_neg (by simp)]
      exact ⟨⟨startsWithAnd_lead hvanishes, htidy⟩, isTidyFilter_prune_canonical rest hrest⟩

theorem vanishes_of_isTidyFilter : ∀ entry : Node (.one .entry), IsTidyFilter entry →
    vanishes entry = false
  | single _ condition, h => by
    cases h with
    | intro => rfl
  | nested _ (cons first rest), h => by
    have hfirst := vanishes_of_isTidyFilter first h.2.1
    rw [vanishes, vanishes, hfirst, Bool.false_and]

/-! ## The lines of a group -/

variable (style : Style)

/-- The entries that are written, each on a line of its own and led by its conjunction. -/
def conditionLines (entries : Group) : Except BuildError Document :=
  Reference.continuation style <$> survivors style entries

/-- What stands behind an entry: the line of another one, or the end of the group. -/
def lineWord (style : Style) : Option Conjunction → String
  | some conjunction => "\n" ++ style.indent ++ conjunction.sql ++ " "
  | none => ")"

theorem conditionLines_nil : conditionLines style nil = .ok [] :=
  rfl

theorem conditionLines_cons {first : Node (.one .entry)} (h : vanishes first = false)
    (rest : Group) :
    conditionLines style (cons first rest) = do
      let document ← document style first
      let lines ← conditionLines style rest
      return fixed (lineWord style (some first.conjunction)) ++ (document ++ lines) := by
  unfold conditionLines
  rw [survivors_cons, map_bind]
  refine (isBlank_entry style first).bind_congr fun document hblank ↦ ?_
  have hwritten : isBlank document = false := hblank.trans h
  simp [hwritten, Reference.continuation_cons, lineWord]

theorem group_document_cons {first : Node (.one .entry)} (h : vanishes first = false)
    (rest : Group) :
    Group.document style (cons first rest) = do
      let document ← document style first
      let lines ← conditionLines style rest
      return some (document ++ lines) := by
  unfold conditionLines
  rw [group_document_eq, survivors_cons, map_bind]
  refine (isBlank_entry style first).bind_congr fun document hblank ↦ ?_
  have hwritten : isBlank document = false := hblank.trans h
  unfold survivors
  simp [Reference.group, hwritten, List.filter_filter]

variable {style}

theorem conditionLines_cons_ok {first : Node (.one .entry)} {rest : Group} {lines : Document}
    (htidy : IsTidyFilter first) (h : conditionLines style (cons first rest) = .ok lines) :
    ∃ document later, Node.document style first = .ok document ∧
      conditionLines style rest = .ok later ∧
      lines = fixed (lineWord style (some first.conjunction)) ++ (document ++ later) := by
  rw [conditionLines_cons style (vanishes_of_isTidyFilter first htidy)] at h
  obtain ⟨document, hdocument, h⟩ := bind_eq_ok h
  obtain ⟨later, hlater, h⟩ := bind_eq_ok h
  cases h
  exact ⟨document, later, hdocument, hlater, rfl⟩

theorem paired_document_ok {path : String} {assertion : Expr} {document : Document}
    (h : Node.document style (paired (name path) assertion) = .ok document) :
    ∃ right, Node.document style assertion = .ok right ∧
      document = Reference.enclosed (fixed (style.identifier path) ++ (fixed " " ++ right)) := by
  rw [Node.document] at h
  obtain ⟨left, hleft, h⟩ := bind_eq_ok h
  obtain ⟨right, hright, h⟩ := bind_eq_ok h
  cases hleft
  cases h
  refine ⟨right, hright, ?_⟩
  simp [isComputed, List.append_assoc]

/-- Whatever stands in a filter stands in parentheses. -/
theorem entry_document_ok {entry : Node (.one .entry)} {document : Document}
    (htidy : IsTidyFilter entry) (h : Node.document style entry = .ok document) :
    ∃ inner, document = Reference.enclosed inner := by
  cases entry with
  | single conjunction condition =>
    cases htidy with
    | intro hname hliterals =>
      obtain ⟨right, -, hright⟩ := paired_document_ok h
      exact ⟨_, hright⟩
  | nested conjunction group =>
    cases group with
    | nil => cases htidy.1
    | cons first rest =>
      have hvanishes := vanishes_of_isTidyFilter first htidy.2.1
      rw [document_nested, group_document_cons style hvanishes] at h
      simp only [map_bind, map_pure] at h
      obtain ⟨one, -, h⟩ := bind_eq_ok h
      obtain ⟨lines, -, h⟩ := bind_eq_ok h
      cases h
      exact ⟨_, rfl⟩

/-- The document of a group is its lines, less what leads to the first of them. -/
theorem group_document_ok {entries : Group} {document? : Option Document}
    (hstarts : startsWithAnd entries) (htidy : IsTidyFilter entries)
    (h : Group.document style entries = .ok document?) :
    ∃ inner lines, document? = some (Reference.enclosed inner ++ lines) ∧
      conditionLines style entries =
        .ok (fixed (lineWord style (some .and)) ++ (Reference.enclosed inner ++ lines)) := by
  cases entries with
  | nil => cases hstarts
  | cons first rest =>
    have hvanishes := vanishes_of_isTidyFilter first htidy.1
    have hstart : first.conjunction = .and := eq_of_beq hstarts
    rw [group_document_cons style hvanishes] at h
    obtain ⟨one, hone, h⟩ := bind_eq_ok h
    obtain ⟨lines, hlines, h⟩ := bind_eq_ok h
    cases h
    obtain ⟨inner, rfl⟩ := entry_document_ok htidy.1 hone
    refine ⟨inner, lines, rfl, ?_⟩
    rw [conditionLines_cons style hvanishes, hone, hlines, hstart]
    rfl

theorem nested_document_ok {conjunction : Conjunction} {entries : Group} {document : Document}
    (hstarts : startsWithAnd entries) (htidy : IsTidyFilter entries)
    (h : Node.document style (nested conjunction entries) = .ok document) :
    ∃ inner lines, document = Reference.enclosed (Reference.enclosed inner ++ lines) ∧
      conditionLines style entries =
        .ok (fixed (lineWord style (some .and)) ++ (Reference.enclosed inner ++ lines)) := by
  rw [document_nested, map_eq_pure_bind] at h
  obtain ⟨document?, hgroup, h⟩ := bind_eq_ok h
  obtain ⟨inner, lines, rfl, hlines⟩ := group_document_ok hstarts htidy hgroup
  cases h
  exact ⟨inner, lines, rfl, hlines⟩

end Node

/-! ## Reading assertions -/

/-- What an assertion starts with: a test for null as a whole, or an operator. -/
def assertionWord : Bool ⊕ Operator → String
  | .inl negated => if negated then "IS NOT NULL" else "IS NULL"
  | .inr op => op.sql ++ " "

theorem assertionWord_free (one two : Bool ⊕ Operator)
    (h : (assertionWord one).toList <+: (assertionWord two).toList) : one = two := by
  have hall : ∀ word, word ∈ [Sum.inl false, .inl true] ++ Operator.all.map .inr := by
    intro word
    cases word with
    | inl negated => cases negated <;> simp
    | inr op => simp [Operator.mem_all op]
  have hfree : ∀ one ∈ [Sum.inl false, .inl true] ++ Operator.all.map .inr,
      ∀ two ∈ [Sum.inl false, .inl true] ++ Operator.all.map .inr,
      (assertionWord one).toList <+: (assertionWord two).toList → one = two := by
    decide +kernel
  exact hfree one (hall one) two (hall two) h

/-- What stands behind a listed literal: another one, or the end of the list. -/
def listWord (more : Bool) : String :=
  if more then "," else ")"

theorem listWord_free (one two : Bool) (h : (listWord one).toList <+: (listWord two).toList) :
    one = two := by
  revert h
  revert one two
  decide

/-- The literals of a list behind the first one. -/
def listed (values : List Value) : Document :=
  values.flatMap fun value ↦ fixed (listWord true) ++ literal value

theorem listed_cons (value : Value) (values : List Value) :
    listed (value :: values) = fixed (listWord true) ++ (literal value ++ listed values) := by
  simp [listed]

/-- What an assertion that compares with literals has behind its first word. -/
inductive AssertionTail : Bool ⊕ Operator → Expr → Document → Prop
  | nullTest (negated : Bool) : AssertionTail (.inl negated) (.nullTest negated) []
  | value {op : Operator} (value : Value) (h : op.takesList = false) :
      AssertionTail (.inr op) (.compareValue op value) (literal value)
  | membership {op : Operator} (value : Value) (values : List Value) (h : op.takesList)
      (hbetween : op ≠ .between) :
      AssertionTail (.inr op) (.compareList op (value :: values))
        (Reference.enclosed (literal value ++ listed values))
  | between (lower upper : Value) :
      AssertionTail (.inr .between) (.compareList .between [lower, upper])
        (literal lower ++ (fixed " AND " ++ literal upper))

theorem separated_literals (value : Value) (values : List Value) :
    separated "," ((value :: values).map literal) =
      literal value ++ listed values := by
  induction values generalizing value with
  | nil => simp [listed]
  | cons second rest ih =>
    have hrest := ih second
    have hcomma : listWord true = "," := rfl
    rw [List.map_cons] at hrest
    rw [List.map_cons, List.map_cons, separated_cons_cons, hrest, listed_cons, hcomma,
      List.append_assoc]

theorem assertionTail_of_ok {style : Style} {assertion : Expr} {document : Document}
    (hliterals : assertion.comparesLiterals)
    (h : Node.document style assertion = .ok document) :
    ∃ word tail, document = fixed (assertionWord word) ++ tail ∧
      AssertionTail word assertion tail := by
  cases assertion with
  | nullTest negated =>
    cases h
    exact ⟨_, [], rfl, .nullTest negated⟩
  | compareValue op value =>
    rw [Node.document] at h
    split at h
    · cases h
    · next hlist =>
      cases h
      exact ⟨_, _, rfl, .value value (by simpa using hlist)⟩
  | compareList op values =>
    have hlist : Reference.comparedList op values = .ok document := h
    unfold Reference.comparedList at hlist
    split at hlist
    · cases hlist
    · cases hlist
    · next hne =>
      cases values with
      | nil => exact (hne rfl).elim
      | cons value values =>
        cases hlist
        rw [separated_literals]
        exact ⟨_, _, rfl, .membership value values rfl (by decide)⟩
    · next hne =>
      cases values with
      | nil => exact (hne rfl).elim
      | cons value values =>
        cases hlist
        rw [separated_literals]
        exact ⟨_, _, rfl, .membership value values rfl (by decide)⟩
    · cases hlist
      exact ⟨_, _, rfl, .between _ _⟩
    · cases hlist
    · cases hlist
  | _ => cases hliterals

section

variable {related : Value → Value → Bool} {placeholder : Placeholder} {bound : Nat}
variable {rest other : Document}

theorem listed_cancel {values others : List Value}
    (h : Alike related placeholder bound (listed values ++ (fixed (listWord false) ++ rest))
      (listed others ++ (fixed (listWord false) ++ other))) :
    values.isEqv others related ∧ ∃ later, Alike related placeholder later rest other := by
  induction values generalizing others bound with
  | nil =>
    cases others with
    | nil => exact ⟨rfl, bound, h.of_fixed⟩
    | cons value others =>
      rw [listed_cons, List.append_assoc] at h
      exact absurd (h.of_code listWord_free).1 (by decide)
  | cons value values ih =>
    cases others with
    | nil =>
      rw [listed_cons, List.append_assoc] at h
      exact absurd (h.of_code listWord_free).1 (by decide)
    | cons otherValue others =>
      rw [listed_cons, listed_cons] at h
      simp only [List.append_assoc] at h
      obtain ⟨hrelated, hrest⟩ := h.of_fixed.of_literal
      obtain ⟨hvalues, hlater⟩ := ih hrest
      exact ⟨by rw [List.isEqv, hrelated, hvalues]; rfl, hlater⟩

/-- Whichever assertions stand in front of a parenthesis, they agree: once their first words are
known to be the same, so is the form of what follows. -/
theorem assertion_cancel {word otherWord : Bool ⊕ Operator} {assertion otherAssertion : Expr}
    {tail otherTail : Document} (htail : AssertionTail word assertion tail)
    (hother : AssertionTail otherWord otherAssertion otherTail)
    (h : Alike related placeholder bound
      (fixed (assertionWord word) ++ (tail ++ (fixed ")" ++ rest)))
      (fixed (assertionWord otherWord) ++ (otherTail ++ (fixed ")" ++ other)))) :
    assertion.agree related otherAssertion ∧
      ∃ later, Alike related placeholder later rest other := by
  obtain ⟨rfl, hrest⟩ := h.of_code assertionWord_free
  cases htail with
  | nullTest negated =>
    cases hother with
    | nullTest => exact ⟨by simp [Node.agree], bound, hrest.of_fixed⟩
  | value value hop =>
    cases hother with
    | value otherValue =>
      obtain ⟨hrelated, hlater⟩ := hrest.of_literal
      exact ⟨by simp [Node.agree, hrelated], bound + 1, hlater.of_fixed⟩
    | membership _ _ htakes => exact absurd (hop.symm.trans htakes) Bool.false_ne_true
    | between => cases hop
  | membership value values htakes hbetween =>
    cases hother with
    | value otherValue hop => exact absurd (hop.symm.trans htakes) Bool.false_ne_true
    | membership otherValue otherValues =>
      simp only [Reference.enclosed, List.append_assoc] at hrest
      obtain ⟨hrelated, hlisted⟩ := hrest.of_fixed.of_literal
      obtain ⟨hvalues, later, hlater⟩ := listed_cancel hlisted
      refine ⟨?_, later, hlater.of_fixed⟩
      simp [Node.agree, List.isEqv, hrelated, hvalues]
    | between => exact absurd rfl hbetween
  | between lower upper =>
    cases hother with
    | value otherValue hop => cases hop
    | membership _ _ _ hbetween => exact absurd rfl hbetween
    | between otherLower otherUpper =>
      simp only [List.append_assoc] at hrest
      obtain ⟨hlower, hand⟩ := hrest.of_literal
      obtain ⟨hupper, hlater⟩ := hand.of_fixed.of_literal
      refine ⟨?_, bound + 1 + 1, hlater.of_fixed⟩
      simp [Node.agree, List.isEqv, hlower, hupper]

end

/-! ## Reading groups -/

/-- Lines are indented as usual, and names stand between quotes of one kind. -/
structure Style.Readable (style : Style) (quote : Char) : Prop where
  indent : style.indent = Options.defaultIndent
  quote_mem : quote ∈ Text.quoteMarks
  quoting : style.quoting = .marked (String.singleton quote)

/-- Whoever sets neither the indent nor the quote has a readable style. -/
theorem Options.readable {options : Options} (hindent : options.indent = none)
    (hquoting : options.quoting = none) : ∃ quote, options.resolve.Readable quote := by
  have hdefault : ∀ flavor : Flavor, ∃ quote ∈ Text.quoteMarks,
      flavor.defaultQuote = String.singleton quote := by
    intro flavor
    cases flavor with
    | postgresql => exact ⟨'\x22', by decide, rfl⟩
    | mysql | sqlite => exact ⟨'\x60', by decide, rfl⟩
  obtain ⟨quote, hquote, hflavor⟩ := hdefault (options.flavor.getD default)
  refine ⟨quote, ?_, hquote, ?_⟩
  · simp [Options.resolve, hindent]
  · simp [Options.resolve, hquoting, hflavor]

namespace Style.Readable

variable {style : Style} {quote : Char} (hstyle : style.Readable quote)
include hstyle

theorem quote_ne_parenthesis : quote ≠ '(' := by
  rintro rfl
  exact absurd hstyle.quote_mem (by decide)

theorem exists_toList_identifier {name : String} (h : Unquoted name.toList) :
    ∃ cs, (style.identifier name).toList = quote :: cs := by
  obtain ⟨first, others, hsegments⟩ := Identifier.exists_segments_eq_cons name.toList
  rw [Style.identifier, hstyle.quoting]
  exact ⟨_, toList_identifier_of_segments h hsegments⟩

end Style.Readable

section

variable {related : Value → Value → Bool} {placeholder : Placeholder} {style : Style}
variable {quote : Char}

/-- An entry that can be read off a text. -/
def EntryCancels (related : Value → Value → Bool) (placeholder : Placeholder) (style : Style)
    (entry : Node (.one .entry)) : Prop :=
  ∀ (otherEntry : Node (.one .entry)) (document otherDocument rest other : Document) (bound : Nat),
    otherEntry.IsTidyFilter → Node.document style entry = .ok document →
    Node.document style otherEntry = .ok otherDocument →
    Alike related placeholder bound (document ++ rest) (otherDocument ++ other) →
    (entry.conjunction = otherEntry.conjunction → entry.agree related otherEntry) ∧
      ∃ later, Alike related placeholder later rest other

/-- A group whose lines can be read off a text up to the parenthesis behind them. -/
def LinesCancel (related : Value → Value → Bool) (placeholder : Placeholder) (style : Style)
    (entries : Group) : Prop :=
  ∀ (others : Group) (lines otherLines rest other : Document) (bound : Nat),
    others.IsTidyFilter → Node.conditionLines style entries = .ok lines →
    Node.conditionLines style others = .ok otherLines →
    Alike related placeholder bound (lines ++ (fixed (Node.lineWord style none) ++ rest))
      (otherLines ++ (fixed (Node.lineWord style none) ++ other)) →
    entries.agree related others ∧ ∃ later, Alike related placeholder later rest other

variable (hstyle : style.Readable quote)
include hstyle

theorem lineWord_free (one two : Option Conjunction)
    (h : (Node.lineWord style one).toList <+: (Node.lineWord style two).toList) : one = two := by
  have hfree : ∀ one ∈ none :: Conjunction.all.map some, ∀ two ∈ none :: Conjunction.all.map some,
      (one.elim ")" fun word ↦ "\n" ++ Options.defaultIndent ++ word.sql ++ " ").toList <+:
        (two.elim ")" fun word ↦ "\n" ++ Options.defaultIndent ++ word.sql ++ " ").toList →
      one = two := by
    decide +kernel
  have hall : ∀ word : Option Conjunction, word ∈ none :: Conjunction.all.map some := by
    intro word
    cases word with
    | none => simp
    | some conjunction => simp [Conjunction.mem_all conjunction]
  have hword : ∀ word : Option Conjunction, Node.lineWord style word =
      word.elim ")" fun word ↦ "\n" ++ Options.defaultIndent ++ word.sql ++ " " := by
    intro word
    cases word with
    | none => rfl
    | some conjunction => rw [Node.lineWord, hstyle.indent]; rfl
  rw [hword, hword] at h
  exact hfree one (hall one) two (hall two) h

/-- A group ends where no conjunction follows. -/
theorem nil_cancels : LinesCancel related placeholder style .nil := by
  intro others lines otherLines rest other bound htidy hlines hother h
  rw [Node.conditionLines_nil] at hlines
  cases hlines
  cases others with
  | nil =>
    rw [Node.conditionLines_nil] at hother
    cases hother
    exact ⟨rfl, bound, h.of_fixed⟩
  | cons first others =>
    obtain ⟨document, later, -, -, rfl⟩ := Node.conditionLines_cons_ok htidy.1 hother
    rw [List.append_assoc] at h
    exact absurd (h.of_code (lineWord_free hstyle)).1 (by simp)

theorem cons_cancels {first : Node (.one .entry)} {entries : Group}
    (htidyFirst : first.IsTidyFilter) (hfirst : EntryCancels related placeholder style first)
    (hentries : LinesCancel related placeholder style entries) :
    LinesCancel related placeholder style (.cons first entries) := by
  intro others lines otherLines rest other bound htidy hlines hother h
  obtain ⟨document, lines, hdocument, hrest, rfl⟩ :=
    Node.conditionLines_cons_ok htidyFirst hlines
  cases others with
  | nil =>
    rw [Node.conditionLines_nil] at hother
    cases hother
    rw [List.append_assoc] at h
    exact absurd (h.of_code (lineWord_free hstyle)).1 (by simp)
  | cons otherFirst others =>
    obtain ⟨otherDocument, otherLines, hotherDocument, hotherRest, rfl⟩ :=
      Node.conditionLines_cons_ok htidy.1 hother
    simp only [List.append_assoc] at h
    obtain ⟨hword, h⟩ := h.of_code (lineWord_free hstyle)
    obtain ⟨hagree, later, h⟩ := hfirst otherFirst _ _ _ _ _ htidy.1 hdocument hotherDocument h
    obtain ⟨hentriesAgree, hlater⟩ := hentries others _ _ _ _ _ htidy.2 hrest hotherRest h
    refine ⟨?_, hlater⟩
    exact Bool.and_eq_true_iff.mpr ⟨hagree (Option.some.inj hword), hentriesAgree⟩

/-- A condition starts with a quote inside of its parentheses and a group does not. -/
theorem paired_not_nested {path : String} (hname : Unquoted path.toList) {bound : Nat}
    {right inner lines rest other : Document} (h : Alike related placeholder bound
      (Reference.enclosed (fixed (style.identifier path) ++ (fixed " " ++ right)) ++ rest)
      (Reference.enclosed (Reference.enclosed inner ++ lines) ++ other)) : False := by
  obtain ⟨cs, hcs⟩ := hstyle.exists_toList_identifier hname
  simp only [Reference.enclosed, List.append_assoc] at h
  exact h.of_fixed.false_of_ne hcs rfl hstyle.quote_ne_parenthesis

theorem nested_not_paired {path : String} (hname : Unquoted path.toList) {bound : Nat}
    {right inner lines rest other : Document} (h : Alike related placeholder bound
      (Reference.enclosed (Reference.enclosed inner ++ lines) ++ other)
      (Reference.enclosed (fixed (style.identifier path) ++ (fixed " " ++ right)) ++ rest)) :
    False := by
  obtain ⟨cs, hcs⟩ := hstyle.exists_toList_identifier hname
  simp only [Reference.enclosed, List.append_assoc] at h
  exact h.of_fixed.false_of_ne rfl hcs hstyle.quote_ne_parenthesis.symm

theorem comparison_cancels (conjunction : Conjunction) {condition : Condition}
    (hcomparison : condition.IsComparison) :
    EntryCancels related placeholder style (.single conjunction condition) := by
  intro otherEntry document otherDocument rest other bound htidy hdocument hother h
  obtain ⟨hname, hliterals⟩ := hcomparison
  obtain ⟨right, hright, rfl⟩ := Node.paired_document_ok hdocument
  cases otherEntry with
  | nested otherConjunction group =>
    obtain ⟨inner, lines, rfl, -⟩ := Node.nested_document_ok htidy.1 htidy.2 hother
    exact (paired_not_nested hstyle hname h).elim
  | single otherConjunction condition =>
    cases htidy with
    | intro hotherName hotherLiterals =>
      obtain ⟨otherRight, hotherRight, rfl⟩ := Node.paired_document_ok hother
      rw [Style.identifier, Style.identifier, hstyle.quoting] at h
      simp only [Reference.enclosed, List.append_assoc] at h
      obtain ⟨rfl, hrest⟩ := h.of_fixed.of_identifier hstyle.quote_mem hname hotherName
      obtain ⟨word, tail, rfl, htail⟩ := assertionTail_of_ok hliterals hright
      obtain ⟨otherWord, otherTail, rfl, hotherTail⟩ :=
        assertionTail_of_ok hotherLiterals hotherRight
      simp only [List.append_assoc] at hrest
      obtain ⟨hagree, hlater⟩ := assertion_cancel htail hotherTail hrest
      refine ⟨fun hconjunction ↦ ?_, hlater⟩
      cases hconjunction
      simp [Node.agree, hagree]

theorem nested_cancels (conjunction : Conjunction) {entries : Group}
    (hstarts : Node.startsWithAnd entries) (hentries : entries.IsTidyFilter)
    (hcancels : LinesCancel related placeholder style entries) :
    EntryCancels related placeholder style (.nested conjunction entries) := by
  intro otherEntry document otherDocument rest other bound htidy hdocument hother h
  obtain ⟨inner, lines, rfl, hlines⟩ := Node.nested_document_ok hstarts hentries hdocument
  cases otherEntry with
  | nested otherConjunction others =>
    obtain ⟨otherInner, otherLines, rfl, hotherLines⟩ :=
      Node.nested_document_ok htidy.1 htidy.2 hother
    have hopened : Alike related placeholder bound
        (fixed "(" ++ (Reference.enclosed inner ++ lines ++ (fixed ")" ++ rest)))
        (fixed "(" ++ (Reference.enclosed otherInner ++ otherLines ++ (fixed ")" ++ other))) := by
      simpa [Reference.enclosed] using h
    have hled := hopened.of_fixed.fixed_append (Node.lineWord style (some .and))
    rw [← List.append_assoc, ← List.append_assoc (fixed (Node.lineWord style (some .and)))] at hled
    obtain ⟨hagree, hlater⟩ := hcancels others _ _ _ _ _ htidy.2 hlines hotherLines hled
    refine ⟨fun hconjunction ↦ ?_, hlater⟩
    cases hconjunction
    simp [Node.agree, hagree]
  | single otherConjunction condition =>
    cases htidy with
    | intro hname hliterals =>
      obtain ⟨right, -, rfl⟩ := Node.paired_document_ok hother
      exact (nested_not_paired hstyle hname h).elim

/-- Recursion on the group: the groups in it are read off like the group itself. -/
theorem lines_cancel : ∀ entries : Group,
    entries.IsTidyFilter → LinesCancel related placeholder style entries
  | .nil, _ => nil_cancels hstyle
  | .cons (.single conjunction condition) rest, h => by
    have hfirst : EntryCancels related placeholder style (.single conjunction condition) :=
      comparison_cancels hstyle conjunction h.1
    exact cons_cancels hstyle h.1 hfirst (lines_cancel rest h.2)
  | .cons (.nested conjunction group) rest, h => by
    have hgroup := lines_cancel group h.1.2
    have hfirst := nested_cancels hstyle conjunction h.1.1 h.1.2 hgroup
    exact cons_cancels hstyle h.1 hfirst (lines_cancel rest h.2)

/-- Groups whose documents are alike are read off as groups that agree. -/
theorem agree_of_alike {entries others : Group} (hstarts : Node.startsWithAnd entries)
    (hentries : entries.IsTidyFilter) (hotherStarts : Node.startsWithAnd others)
    (hothers : others.IsTidyFilter) {document otherDocument : Document} {bound : Nat}
    (hdocument : Group.document style entries = .ok (some document))
    (hotherDocument : Group.document style others = .ok (some otherDocument))
    (h : Alike related placeholder bound document otherDocument) :
    entries.agree related others := by
  obtain ⟨inner, lines, hread, hlines⟩ := Node.group_document_ok hstarts hentries hdocument
  obtain ⟨otherInner, otherLines, hotherRead, hotherLines⟩ :=
    Node.group_document_ok hotherStarts hothers hotherDocument
  cases hread
  cases hotherRead
  have hled := (h.append_fixed (Node.lineWord style none)).fixed_append
    (Node.lineWord style (some .and))
  rw [← List.append_assoc, ← List.append_assoc (fixed (Node.lineWord style (some .and)))] at hled
  have hcancels : LinesCancel related placeholder style entries :=
    lines_cancel hstyle entries hentries
  have hcancelled := hcancels others _ _ [] [] _ hothers hlines hotherLines (by simpa using hled)
  exact hcancelled.1

end

/-! ## Filters that stand alone -/

/-- The canonical form of a filter is empty, or it is led by AND as the groups in it are. -/
theorem Group.canonical_of_isFilter {filter : Group} (h : filter.IsFilter) :
    Group.canonical filter = .nil ∨
      Node.startsWithAnd (Group.canonical filter) ∧ (Group.canonical filter).IsTidyFilter := by
  have htidy : (Group.canonical filter).IsTidyFilter :=
    Node.isTidyFilter_lead (Node.isTidyFilter_prune_canonical filter h)
  cases hentries : Group.canonical filter with
  | nil => exact .inl rfl
  | cons first rest =>
    rw [hentries] at htidy
    have hvanishes := Node.vanishes_of_isTidyFilter first htidy.1
    have hled : Node.vanishes (Group.canonical filter) = false := by
      rw [hentries, Node.vanishes, hvanishes, Bool.false_and]
    have hstarts : Node.startsWithAnd (Group.canonical filter) := Node.startsWithAnd_lead hled
    rw [hentries] at hstarts
    exact .inr ⟨hstarts, htidy⟩

/-- Two filters that are written alike, with related literals, agree in their canonical forms. -/
theorem Group.agree_canonical {style : Style} {quote : Char} (hstyle : style.Readable quote)
    {related : Value → Value → Bool} {placeholder : Placeholder} {bound : Nat}
    {first second : Group} (hfirst : first.IsFilter) (hsecond : second.IsFilter)
    {document? otherDocument? : Option Document}
    (hdocument : Group.document style first = .ok document?)
    (hotherDocument : Group.document style second = .ok otherDocument?)
    (hwrite : document?.map (write placeholder bound) =
      otherDocument?.map (write placeholder bound))
    (hliterals : (document?.elim [] literals).isEqv (otherDocument?.elim [] literals) related) :
    Node.agree related (Group.canonical first) (Group.canonical second) := by
  rw [← Group.document_canonical] at hdocument hotherDocument
  have hempty : Group.document style .nil = .ok none := rfl
  rcases Group.canonical_of_isFilter hfirst with hnil | ⟨hstarts, htidy⟩
  · rw [hnil, hempty] at hdocument
    cases hdocument
    rcases Group.canonical_of_isFilter hsecond with hotherNil | ⟨hotherStarts, hotherTidy⟩
    · rw [hnil, hotherNil]
      rfl
    · obtain ⟨inner, lines, rfl, -⟩ :=
        Node.group_document_ok hotherStarts hotherTidy hotherDocument
      cases hwrite
  · obtain ⟨inner, lines, rfl, -⟩ := Node.group_document_ok hstarts htidy hdocument
    rcases Group.canonical_of_isFilter hsecond with hotherNil | ⟨hotherStarts, hotherTidy⟩
    · rw [hotherNil, hempty] at hotherDocument
      cases hotherDocument
      cases hwrite
    · obtain ⟨otherInner, otherLines, rfl, -⟩ :=
        Node.group_document_ok hotherStarts hotherTidy hotherDocument
      exact agree_of_alike hstyle hstarts htidy hotherStarts hotherTidy hdocument hotherDocument
        ⟨Option.some.inj hwrite, hliterals⟩

/-- The canonical form, with truth values read as the integers 0 and 1. -/
def Group.normal (group : Group) : Group :=
  Node.mapLiterals Value.normalize (Group.canonical group)

theorem Group.toSqlWith_eq_ok {group : Group} {options : Options}
    {result : Prepared (Option String)} (h : group.toSqlWith options = .ok result) :
    ∃ document?, Group.document options.resolve group = .ok document? ∧
      result.text = document?.map (write options.resolve.placeholder 0) ∧
      result.arguments = ((document?.elim [] literals).map Value.normalize).toArray := by
  obtain ⟨params, hrun, harguments⟩ := prepare_eq_ok h
  have hdelivers := Group.render_delivers options.resolve group
    (Params.empty options.resolve.placeholder)
  obtain ⟨document?, hdocument, htext, hparams⟩ := (hdelivers.eq_ok_iff _ _).mp hrun
  refine ⟨document?, hdocument, htext, ?_⟩
  rw [harguments, hparams]
  exact Array.empty_append

/-- Text and arguments determine a filter. Two filters with the same text and the same arguments
are the same up to entries that are not written, the conjunction before the first entry of a group,
and the literals for truth values. If the arguments are only equal as values then so are the
filters, in whatever way dates are compared. -/
theorem text_and_arguments_determine_filter {options : Options} (hindent : options.indent = none)
    (hquoting : options.quoting = none) {first second : Group} (hfirst : first.IsFilter)
    (hsecond : second.IsFilter) {result other : Prepared (Option String)}
    (hresult : first.toSqlWith options = .ok result)
    (hother : second.toSqlWith options = .ok other) (htext : result.text = other.text) :
    (result.arguments = other.arguments → first.normal = second.normal) ∧
      ∀ sameInstant : DateTime → DateTime → Bool,
        result.arguments.isEqv other.arguments (Value.eqv sameInstant) →
          first.normal.eqv sameInstant second.normal := by
  obtain ⟨quote, hstyle⟩ := Options.readable hindent hquoting
  obtain ⟨document?, hdocument, hwrite, harguments⟩ := Group.toSqlWith_eq_ok hresult
  obtain ⟨otherDocument?, hotherDocument, hotherWrite, hotherArguments⟩ :=
    Group.toSqlWith_eq_ok hother
  rw [hwrite, hotherWrite] at htext
  have hagree (related : Value → Value → Bool)
      (hrelated : result.arguments.isEqv other.arguments related) :
      Node.agree (fun value other ↦ related value.normalize other.normalize)
        (Group.canonical first) (Group.canonical second) := by
    rw [harguments, hotherArguments, ← Array.isEqv_toList, Node.isEqv_map] at hrelated
    exact Group.agree_canonical hstyle hfirst hsecond hdocument hotherDocument htext hrelated
  constructor
  · intro hsame
    have hself : result.arguments.isEqv other.arguments (· == ·) := by
      rw [hsame]
      exact Array.isEqv_self_beq _
    exact Node.mapLiterals_eq_of_agree _ (fun value other h ↦ eq_of_beq h) (hagree _ hself)
  · intro sameInstant hequal
    calc Node.eqv sameInstant first.normal second.normal
        = Node.agree (fun value other ↦ value.normalize.eqv sameInstant other.normalize)
            (Group.canonical first) (Group.canonical second) := Node.agree_mapLiterals _ _ _ _
      _ = true := hagree _ hequal

/-- An entry that is not written, the conjunctions in front and `true` for 1 make no difference. -/
theorem text_and_arguments_determine_filter_with_empty_group :
    let isTrue : Condition := .paired (.name "a") (.compareValue .eq (.bool true))
    let isOne : Condition := .paired (.name "a") (.compareValue .eq (.int 1))
    let excluded : Condition := .paired (.name "t.b") (.compareList .notIn [.string "x", .null])
    let present : Condition := .paired (.name "") (.nullTest true)
    let inner (conjunction : Conjunction) : Group :=
      .ofList [.single conjunction excluded, .single .and present]
    let first : Group := .ofList [.nested .or .nil, .single .or isTrue, .nested .or (inner .or)]
    let second : Group := .ofList [.single .and isOne, .nested .or (inner .and)]
    let text := "(\x60a\x60 = ?)\n" ++
      "  OR ((\x60t\x60.\x60b\x60 NOT IN (?,?))\n  AND (\x60\x60 IS NOT NULL))"
    let result : Prepared (Option String) := ⟨some text, #[.int 1, .string "x", .null]⟩
    first.IsFilter ∧ second.IsFilter ∧ first.toSqlWith Options.empty = .ok result ∧
      second.toSqlWith Options.empty = .ok result ∧ first.normal = second.normal := by
  intro isTrue isOne excluded present inner first second text result
  have hinner : ∀ conjunction, (inner conjunction).IsFilter := fun _ ↦
    ⟨.intro (by decide) rfl, .intro (by decide) rfl, trivial⟩
  have hfirst : first.IsFilter :=
    ⟨trivial, .intro (by decide) rfl, hinner .or, trivial⟩
  have hsecond : second.IsFilter :=
    ⟨.intro (by decide) rfl, hinner .and, trivial⟩
  have hresult : first.toSqlWith Options.empty = .ok result := rfl
  have hother : second.toSqlWith Options.empty = .ok result := rfl
  exact ⟨hfirst, hsecond, hresult, hother,
    (text_and_arguments_determine_filter rfl rfl hfirst hsecond hresult hother rfl).1 rfl⟩

end SqlSelect
