import SqlSelect.Proofs.Canonical
import SqlSelect.Proofs.Context
import SqlSelect.Proofs.Region
import SqlSelect.Proofs.Numbering
import SqlSelect.Proofs.Refinement

/-!
# The surroundings of a subquery

A statement put in the place of a subquery changes the text between the parentheses
and the literals bound there. What is written before it stays as it is, and so does
what is written after it, but for the numbers in the placeholders. A frame around a
computation keeps this property, so it holds for the whole path of frames from the
subquery to the root.
-/

namespace SqlSelect

open Document

/-! ## Computations with a region -/

/-- Either there is a result for every region, which keeps it, or there is none for any. -/
def Yields (kind : Kind) (computation : Document → Except BuildError (kind.Rendered Document)) :
    Prop :=
  (∃ yield, kind.Keeps yield ∧
    ∀ region, isBlank region = false → computation region = .ok (yield region)) ∨
  ∀ region, isBlank region = false → ∃ error, computation region = .error error

namespace Yields

variable {kind : Kind}

theorem pure {yield : Document → kind.Rendered Document} (h : kind.Keeps yield) :
    Yields kind fun region ↦ Pure.pure (yield region) :=
  .inl ⟨yield, h, fun _ _ ↦ rfl⟩

theorem of_next {α : Type} {first : Except BuildError α}
    {next : α → Document → Except BuildError (kind.Rendered Document)}
    (h : ∀ value, Yields kind (next value)) :
    Yields kind fun region ↦ first >>= fun value ↦ next value region := by
  cases first with
  | error error => exact .inr fun _ _ ↦ ⟨error, rfl⟩
  | ok value => exact h value

end Yields

/-- Either there is a result for every statement that has a document, which keeps the document in
parentheses as a region, or there is no result for any statement. -/
def Embeds (style : Style) (kind : Kind)
    (computation : Select → Except BuildError (kind.Rendered Document)) : Prop :=
  (∃ yield, kind.Keeps yield ∧ ∀ query, computation query =
    (fun inner ↦ yield (Reference.enclosed inner)) <$> Node.document style query) ∨
  ∀ query, ∃ error, computation query = .error error

namespace Embeds

variable {style : Style} {source target : Kind}
  {computation : Select → Except BuildError (source.Rendered Document)}

theorem of_throw {error : BuildError} : Embeds style source fun _ ↦ throw error :=
  .inr fun _ ↦ ⟨error, rfl⟩

theorem of_next {α : Type} {first : Except BuildError α}
    {next : α → Select → Except BuildError (source.Rendered Document)}
    (h : ∀ value, Embeds style source (next value)) :
    Embeds style source fun query ↦ first >>= fun value ↦ next value query := by
  cases first with
  | error error => exact of_throw
  | ok value => exact h value

variable (h : Embeds style source computation)

include h

theorem bind {next : source.Rendered Document → Except BuildError (target.Rendered Document)}
    (hnext : ∀ {yield}, source.Keeps yield → Yields target fun region ↦ next (yield region)) :
    Embeds style target fun query ↦ computation query >>= next := by
  obtain ⟨yield, hkeeps, hyield⟩ | hfails := h
  · simp only [hyield]
    obtain ⟨wider, hwider, hresult⟩ | hfails := hnext hkeeps
    · refine .inl ⟨wider, hwider, fun query ↦ ?_⟩
      dsimp only
      cases Node.document style query with
      | error error => rfl
      | ok inner => exact hresult _ (isBlank_enclosed inner)
    · refine .inr fun query ↦ ?_
      dsimp only
      cases Node.document style query with
      | error error => exact ⟨error, rfl⟩
      | ok inner => exact hfails _ (isBlank_enclosed inner)
  · refine .inr fun query ↦ ?_
    obtain ⟨error, herror⟩ := hfails query
    exact ⟨error, congrArg (· >>= next) herror⟩

theorem map {layout : source.Rendered Document → target.Rendered Document}
    (hlayout : ∀ {yield}, source.Keeps yield → target.Keeps fun region ↦ layout (yield region)) :
    Embeds style target fun query ↦ layout <$> computation query := by
  simp only [map_eq_pure_bind]
  exact h.bind fun hkeeps ↦ .pure (hlayout hkeeps)

/-- A check that does not look at the statement. -/
theorem ite_throw {refused : Prop} [Decidable refused] {error : BuildError} :
    Embeds style source fun query ↦ if refused then throw error else computation query := by
  by_cases hrefused : refused
  · simp only [if_pos hrefused]
    exact of_throw
  · simp only [if_neg hrefused]
    exact h

theorem ite_else_throw {allowed : Prop} [Decidable allowed] {error : BuildError} :
    Embeds style source fun query ↦ if allowed then computation query else throw error := by
  simp only [← ite_not allowed]
  exact h.ite_throw

end Embeds

/-! ## Contexts -/

namespace Node

variable {style : Style}

theorem embeds_of_present {category : Category} {node : Select → Node (.one category)}
    (h : Embeds style (.maybe category) fun query ↦ document style (present (node query))) :
    Embeds style (.one category) fun query ↦ document style (node query) := by
  simp only [document_present] at h
  obtain ⟨yield, ⟨one, hone, hpresent⟩, hyield⟩ | hfails := h
  · refine .inl ⟨one, hone, fun query ↦ map_some_injective ((hyield query).trans ?_)⟩
    rw [Functor.map_map]
    exact congrArg (· <$> document style query)
      (funext fun inner ↦ hpresent _ (isBlank_enclosed inner))
  · refine .inr fun query ↦ ?_
    obtain ⟨error, herror⟩ := hfails query
    exact ⟨error, map_some_injective herror⟩

theorem Opening.embeds {kind : Kind} (holder : Opening kind) :
    Embeds style kind fun query ↦ document style (holder.plug query) := by
  cases holder with
  | subquery =>
    refine .inl ⟨_, Keeps.refl, fun query ↦ ?_⟩
    simp only [plug, document, map_eq_pure_bind]
  | existsTest negated =>
    let keyword := fixed (if negated then "NOT EXISTS " else "EXISTS ")
    refine .inl ⟨_, Keeps.refl.appendLeft keyword, fun query ↦ ?_⟩
    simp only [plug, document, map_eq_pure_bind, keyword]
  | derivedTable label =>
    refine .inl ⟨_, Keeps.refl.labelled style (some label), fun query ↦ ?_⟩
    simp only [plug, document, map_eq_pure_bind]

/-- Some statement has a document. -/
theorem exists_document (style : Style) :
    ∃ (query : Select) (inner : Document), document style query = .ok inner :=
  ⟨.select .nil (.present (.namedTable "" none)) .nil .nil .nil .nil .nil {}, _, rfl⟩

theorem Context.group_embeds (context : Context (.many .entry))
    (h : Embeds style (.many .entry) fun query ↦ document style (context.plug query)) :
    Embeds style (.maybe .entry) fun query ↦ Group.document style (context.plug query) := by
  obtain ⟨conjunctions, hconjunctions⟩ := context.exists_conjunctions
  simp only [Group.document, hconjunctions]
  obtain ⟨yield, hkeeps, hyield⟩ | hfails := h
  · -- The documents are as many as the conjunctions, whatever the statement is.
    obtain ⟨sample, inner, hinner⟩ := exists_document style
    have hdocuments : document style (context.plug sample) =
        .ok (yield (Reference.enclosed inner)) :=
      (hyield sample).trans (by rw [hinner]; rfl)
    have hcount : (yield (Reference.enclosed inner)).length = conjunctions.length := by
      rw [length_document style _ _ hdocuments, ← hconjunctions sample, Node.conjunctions,
        List.length_map]
    simp only [hyield, Functor.map_map]
    exact .inl ⟨_, hkeeps.group style (isBlank_enclosed inner) hcount, fun query ↦ rfl⟩
  · refine .inr fun query ↦ ?_
    obtain ⟨error, herror⟩ := hfails query
    exact ⟨error, congrArg (_ <$> ·) herror⟩

/-- The parts of a statement have their documents one after the other, each fixed but for the part
in the slot. -/
theorem Slot.embeds {kind : Kind} (slot : Slot kind) (clauses : Clauses)
    (hcounts : slot.Counts clauses.attributes) (context : Context kind)
    (h : Embeds style kind fun query ↦ document style (context.plug query)) :
    Embeds style (.one .select) fun query ↦
      document style (Select.ofClauses (slot.put clauses (context.plug query))) := by
  obtain ⟨columns, source, joins, filter, groupKeys, having, orderings, attributes⟩ := clauses
  cases slot with
  | columns =>
    cases source with
    | absent => exact .of_throw
    | present source =>
      have hgiven : attributes.head = none := hcounts
      have hhead : Embeds style (.one .select) fun query ↦ do
          let columns ← document style (context.plug query)
          return fixed "SELECT\n" ++ Reference.columns style columns :=
        h.bind fun hkeeps ↦ .pure ((hkeeps.columns style).appendLeft _)
      simp only [Slot.put, Select.ofClauses, document_select, hgiven, Reference.head]
      refine hhead.bind fun hkeeps ↦ .of_next fun source ↦ .of_next fun joins ↦
        .of_next fun filter ↦ .of_next fun groupKeys ↦ .of_next fun having ↦
        .of_next fun orderings ↦ .pure ?_
      simp only [Reference.statement]
      repeat refine Keeps.appendRight ?_ _
      exact hkeeps
  | source =>
    obtain ⟨inner, hinner⟩ := context.exists_present
    simp only [hinner] at h
    simp only [Slot.put, Select.ofClauses, hinner, document_select]
    refine .of_next fun head ↦ (embeds_of_present h).bind fun hkeeps ↦
      .of_next fun joins ↦ .of_next fun filter ↦ .of_next fun groupKeys ↦ .of_next fun having ↦
      .of_next fun orderings ↦ .pure ?_
    simp only [Reference.statement]
    repeat refine Keeps.appendRight ?_ _
    exact (hkeeps.appendLeft _).appendLeft _
  | joins =>
    cases source with
    | absent => exact .of_throw
    | present source =>
      simp only [Slot.put, Select.ofClauses, document_select]
      refine .of_next fun head ↦ .of_next fun source ↦ h.bind fun hkeeps ↦
        .of_next fun filter ↦ .of_next fun groupKeys ↦ .of_next fun having ↦
        .of_next fun orderings ↦ .pure ?_
      simp only [Reference.statement]
      repeat refine Keeps.appendRight ?_ _
      exact (hkeeps.flatMap fun hone ↦ hone.appendLeft _).appendLeft _
  | filter =>
    cases source with
    | absent => exact .of_throw
    | present source =>
      simp only [Slot.put, Select.ofClauses, document_select]
      refine .of_next fun head ↦ .of_next fun source ↦ .of_next fun joins ↦
        (context.group_embeds h).bind fun hkeeps ↦ .of_next fun groupKeys ↦
        .of_next fun having ↦ .of_next fun orderings ↦ .pure ?_
      simp only [Reference.statement]
      repeat refine Keeps.appendRight ?_ _
      exact ((hkeeps.map fun hone ↦ hone.appendLeft _).clause _).appendLeft _
  | groupKeys =>
    cases source with
    | absent => exact .of_throw
    | present source =>
      simp only [Slot.put, Select.ofClauses, document_select]
      refine .of_next fun head ↦ .of_next fun source ↦ .of_next fun joins ↦
        .of_next fun filter ↦ h.bind fun hkeeps ↦ .of_next fun having ↦
        .of_next fun orderings ↦ .pure ?_
      simp only [Reference.statement]
      repeat refine Keeps.appendRight ?_ _
      exact ((hkeeps.listed ((hkeeps.separated _).appendLeft _)).clause _).appendLeft _
  | having =>
    cases source with
    | absent => exact .of_throw
    | present source =>
      simp only [Slot.put, Select.ofClauses, document_select]
      refine .of_next fun head ↦ .of_next fun source ↦ .of_next fun joins ↦
        .of_next fun filter ↦ .of_next fun groupKeys ↦
        (context.group_embeds h).bind fun hkeeps ↦ .of_next fun orderings ↦ .pure ?_
      simp only [Reference.statement]
      repeat refine Keeps.appendRight ?_ _
      exact ((hkeeps.map fun hone ↦ hone.appendLeft _).clause _).appendLeft _
  | orderings =>
    cases source with
    | absent => exact .of_throw
    | present source =>
      simp only [Slot.put, Select.ofClauses, document_select]
      refine .of_next fun head ↦ .of_next fun source ↦ .of_next fun joins ↦
        .of_next fun filter ↦ .of_next fun groupKeys ↦ .of_next fun having ↦
        h.bind fun hkeeps ↦ .pure ?_
      simp only [Reference.statement]
      repeat refine Keeps.appendRight ?_ _
      exact ((hkeeps.listed (hkeeps.lines style)).clause _).appendLeft _

theorem Frame.embeds {inner outer : Kind} (frame : Frame inner outer) (context : Context inner)
    (h : Embeds style inner fun query ↦ document style (context.plug query)) :
    Embeds style outer fun query ↦ document style (frame.plug (context.plug query)) := by
  cases frame with
  | opening holder =>
    cases holder with
    | subquery =>
      simp only [Frame.plug, Opening.plug, document]
      exact h.bind fun hkeeps ↦ .pure hkeeps.enclosed
    | existsTest negated =>
      simp only [Frame.plug, Opening.plug, document]
      exact h.bind fun hkeeps ↦ .pure (hkeeps.enclosed.appendLeft _)
    | derivedTable label =>
      simp only [Frame.plug, Opening.plug, document]
      exact h.bind fun hkeeps ↦ .pure (hkeeps.enclosed.labelled style _)
  | computed | inline | standalone | single _ | conditionTest => exact h
  | compareField op =>
    simp only [Frame.plug, document]
    obtain ⟨isSubquery, hsubquery⟩ := context.exists_isSubquery
    simp only [fieldAllowed, hsubquery]
    refine .ite_else_throw ?_
    exact h.bind fun hkeeps ↦ .pure (hkeeps.appendLeft _)
  | compareExpr op =>
    simp only [Frame.plug, document]
    refine .ite_throw ?_
    exact h.bind fun hkeeps ↦ .pure (hkeeps.appendLeft _)
  | firstBranch others fallback =>
    simp only [Frame.plug, document]
    refine h.bind fun hkeeps ↦ .of_next fun others ↦ .of_next fun fallback ↦ .pure ?_
    exact (((hkeeps.appendLeft _).appendRight _).appendRight _).appendRight _
  | otherBranches leading fallback =>
    simp only [Frame.plug, document]
    refine .of_next fun leading ↦ h.bind fun hkeeps ↦ .of_next fun fallback ↦ .pure ?_
    exact ((hkeeps.flatten.appendLeft _).appendRight _).appendRight _
  | otherwise leading others =>
    simp only [Frame.plug, document]
    refine .of_next fun leading ↦ .of_next fun others ↦ h.bind fun hkeeps ↦ .pure ?_
    exact ((hkeeps.elim fun hone ↦ hone.appendLeft _).appendLeft _).appendRight _
  | coalesce =>
    simp only [Frame.plug, document, context.isEmpty_plug]
    refine .ite_throw ?_
    exact h.bind fun hkeeps ↦ .pure ((hkeeps.separated _).enclosed.appendLeft _)
  | jsonObject =>
    simp only [Frame.plug, document]
    exact h.bind fun hkeeps ↦ .pure ((hkeeps.separated _).enclosed.appendLeft _)
  | jsonArray =>
    simp only [Frame.plug, document]
    exact h.bind fun hkeeps ↦ .pure (hkeeps.enclosed.appendLeft _)
  | pairedField assertion =>
    obtain ⟨isComputed, hcomputed⟩ := context.exists_isComputed
    simp only [Frame.plug, document, hcomputed]
    refine h.bind fun hkeeps ↦ .of_next fun right ↦ .pure ?_
    cases isComputed with
    | true => exact ((hkeeps.enclosed.appendRight _).appendRight _).enclosed
    | false => exact ((hkeeps.appendRight _).appendRight _).enclosed
  | pairedAssertion field =>
    simp only [Frame.plug, document]
    exact .of_next fun left ↦ h.bind fun hkeeps ↦ .pure (hkeeps.appendLeft _).enclosed
  | nested conjunction =>
    simp only [Frame.plug, document_nested]
    exact (context.group_embeds h).map fun hkeeps ↦ hkeeps.elim Keeps.enclosed
  | testField assertion =>
    simp only [Frame.plug, document]
    exact h.bind fun hkeeps ↦ .of_next fun right ↦ .pure ((hkeeps.appendRight _).appendRight _)
  | testAssertion field =>
    simp only [Frame.plug, document]
    exact .of_next fun left ↦ h.bind fun hkeeps ↦ .pure (hkeeps.appendLeft _)
  | groupTest =>
    simp only [Frame.plug, document_groupTest]
    apply (context.group_embeds h).bind
    rintro yield ⟨one, hone, hyield⟩
    refine .inl ⟨one, hone, fun region hregion ↦ ?_⟩
    simp only [hyield region hregion]
    rfl
  | branchTest result =>
    simp only [Frame.plug, document]
    exact h.bind fun hkeeps ↦ .of_next fun result ↦
      .pure (((hkeeps.appendLeft _).appendRight _).appendRight _)
  | branchResult test =>
    simp only [Frame.plug, document]
    exact .of_next fun test ↦ h.bind fun hkeeps ↦ .pure (hkeeps.appendLeft _)
  | member key =>
    simp only [Frame.plug, document]
    exact h.bind fun hkeeps ↦ .pure (hkeeps.appendLeft _)
  | column label =>
    simp only [Frame.plug, document]
    exact h.bind fun hkeeps ↦ .pure (hkeeps.labelled style label)
  | join kind condition =>
    simp only [Frame.plug, document]
    exact h.bind fun hkeeps ↦ .pure ((hkeeps.appendLeft _).appendRight _)
  | ordering direction =>
    simp only [Frame.plug, document]
    exact h.bind fun hkeeps ↦ .pure (hkeeps.appendRight _)
  | first others =>
    simp only [Frame.plug, document]
    exact h.bind fun hkeeps ↦ .of_next fun others ↦ .pure (hkeeps.cons others)
  | rest node =>
    simp only [Frame.plug, document]
    exact .of_next fun node ↦ h.bind fun hkeeps ↦ .pure (hkeeps.consLeft node)
  | present =>
    simp only [Frame.plug, document]
    exact h.bind fun hkeeps ↦ .pure hkeeps.present
  | clause clauses slot hcounts => exact slot.embeds clauses hcounts context h

theorem Context.embeds {kind : Kind} (context : Context kind) :
    Embeds style kind fun query ↦ document style (context.plug query) := by
  induction context with
  | opening holder => exact holder.embeds
  | within frame context ih => exact frame.embeds context ih

end Node

namespace Part.Context

theorem embeds (style : Style) (context : Part.Context) :
    Embeds style (.maybe .entry) fun query ↦ (context.plug query).document style := by
  cases context with
  | node context => exact context.embeds.map fun hkeeps ↦ hkeeps.present
  | columns context =>
    simp only [plug, Part.document, Piece.document, Functor.map_map]
    exact context.embeds.map fun hkeeps ↦ (hkeeps.columns style).present
  | groupKeys context =>
    simp only [plug, Part.document, Piece.document, Functor.map_map]
    exact context.embeds.map fun hkeeps ↦ (hkeeps.separated ",").present
  | orderings context =>
    simp only [plug, Part.document, Piece.document, Functor.map_map]
    exact context.embeds.map fun hkeeps ↦ (hkeeps.lines style).present
  | group context => exact context.group_embeds context.embeds

/-- The documents before and after the subquery are the same for all statements in its place. -/
theorem exists_surroundings (style : Style) (context : Part.Context) :
    (∃ before after : Document, ∀ query, (context.plug query).document style =
      (fun inner ↦ some (before ++ Reference.enclosed inner ++ after)) <$>
        Node.document style query) ∨
    ∀ query, ∃ error, (context.plug query).document style = .error error := by
  refine (context.embeds style).imp_left ?_
  rintro ⟨yield, ⟨one, ⟨before, after, hone⟩, hyield⟩, hdocument⟩
  refine ⟨before, after, fun query ↦ (hdocument query).trans ?_⟩
  refine congrArg (· <$> Node.document style query) (funext fun inner ↦ ?_)
  have hblank := isBlank_enclosed inner
  rw [hyield _ hblank, hone _ hblank]

end Part.Context

/-! ## Rendering around a subquery -/

theorem Delivers.exists_ok_iff {base : Params} {kind : Kind}
    {result : EStateM.Result BuildError Params (kind.Rendered String)}
    {reference : Except BuildError (kind.Rendered Document)}
    (h : Delivers base kind result reference) :
    (∃ text after, result = .ok text after) ↔ ∃ document, reference = .ok document := by
  cases h <;> simp

theorem exists_map_eq_ok_iff {ε α β : Type} {change : α → β} {computation : Except ε α} :
    (∃ result, change <$> computation = .ok result) ↔ ∃ value, computation = .ok value := by
  constructor
  · rintro ⟨result, hresult⟩
    rw [map_eq_pure_bind] at hresult
    obtain ⟨value, hvalue, -⟩ := bind_eq_ok hresult
    exact ⟨value, hvalue⟩
  · rintro ⟨value, rfl⟩
    exact ⟨change value, rfl⟩

namespace Part.Context

/-- What is rendered is the fixed surroundings with the text of the subquery, which counts on from
what stands before it. -/
theorem region_of_document {style : Style} {context : Part.Context} {before after : Document}
    {query : Select} {params left : Params} {text? : Option String}
    (hsurroundings : (context.plug query).document style =
      (fun inner ↦ some (before ++ Reference.enclosed inner ++ after)) <$>
        Node.document style query)
    (hrender : ((context.plug query).render style).run params = .ok text? left) :
    let reached := params.size + before.literals.length
    let rest := after.segments reached
    ∃ (inner : String) (bound : List Value),
      (∀ sink : Params, sink.placeholder = params.placeholder → sink.size = reached →
        (Node.render style query).run sink = .ok inner (sink.append bound)) ∧
      text? = some (write params.placeholder params.size before ++ Layout.parenthesized inner ++
        Segment.join params.placeholder (rest.map (Segment.shift bound.length))) ∧
      left = params.append (before.literals ++ bound ++ after.literals) := by
  intro reached rest
  obtain ⟨document?, hdocument, htext, hleft⟩ :=
    ((render_delivers style _ params).eq_ok_iff text? left).mp hrender
  rw [hsurroundings, map_eq_pure_bind] at hdocument
  obtain ⟨inner, hinner, hwhole⟩ := bind_eq_ok hdocument
  cases hwhole
  refine ⟨write params.placeholder reached inner, inner.literals, ?_, ?_, ?_⟩
  · intro sink hplaceholder hsize
    exact ((Node.render_delivers style query sink).eq_ok_iff _ _).mpr
      ⟨inner, hinner, by rw [← hplaceholder, ← hsize]; rfl, rfl⟩
  · rw [htext, ← segments_add, join_segments]
    simp [Reference.enclosed, Layout.parenthesized, reached, String.append_assoc]
  · rw [hleft]
    simp [Reference.enclosed]

/-- The text and the values before the subquery do not depend on it, and neither do the values
after it. The subquery is rendered as it would be alone, from as many parameters as are bound when
it is reached, and the numbers after it are shifted by the count of the values that it binds. What
can be rendered in its place is whatever can be rendered alone. -/
theorem subquery_changes_only_its_region (style : Style) (context : Part.Context) :
    ∃ before after : Document,
      ∀ (params left : Params) (query : Select) (text? : Option String),
        ((context.plug query).render style).run params = .ok text? left →
          let reached := params.size + before.literals.length
          let rest := after.segments reached
          (∃ (inner : String) (bound : List Value),
            (∀ sink : Params, sink.placeholder = params.placeholder → sink.size = reached →
              (Node.render style query).run sink = .ok inner (sink.append bound)) ∧
            text? = some (write params.placeholder params.size before ++
              Layout.parenthesized inner ++
              Segment.join params.placeholder (rest.map (Segment.shift bound.length))) ∧
            left = params.append (before.literals ++ bound ++ after.literals) ∧
            (params.placeholder = .questionMark →
              Segment.join params.placeholder (rest.map (Segment.shift bound.length)) =
                Segment.join params.placeholder rest)) ∧
          ∀ other : Select,
            (∃ text left, ((context.plug other).render style).run params = .ok text left) ↔
              ∃ inner left, (Node.render style other).run params = .ok inner left := by
  obtain ⟨before, after, hsurroundings⟩ | hfails := context.exists_surroundings style
  · refine ⟨before, after, fun params left query text? hrender ↦ ⟨?_, fun other ↦ ?_⟩⟩
    · obtain ⟨inner, bound, halone, htext, hleft⟩ :=
        region_of_document (hsurroundings query) hrender
      refine ⟨inner, bound, halone, htext, hleft, fun hplaceholder ↦ ?_⟩
      rw [hplaceholder, Segment.join_map_shift_questionMark]
    · refine (render_delivers style _ params).exists_ok_iff.trans
        (Iff.trans ?_ (Node.render_delivers style other params).exists_ok_iff.symm)
      rw [hsurroundings other]
      exact exists_map_eq_ok_iff
  · refine ⟨[], [], fun params left query text? hrender ↦ ?_⟩
    obtain ⟨error, herror⟩ := hfails query
    obtain ⟨document?, hdocument, -⟩ :=
      ((render_delivers style _ params).eq_ok_iff text? left).mp hrender
    rw [herror] at hdocument
    cases hdocument

/-- A subquery between two literals. It binds a value, so the second literal has number 3. -/
theorem subquery_changes_only_its_region_in_coalesce :
    let context : Part.Context := .node (.within .coalesce (.within (.rest (.literal (.int 1)))
      (.within (.first (.cons (.literal (.int 3)) .nil)) (.within .inline (.opening .subquery)))))
    let query : Select := .select .nil (.present (.namedTable "s" none)) .nil
      (.cons (.single .and (.paired (.name "d") (.compareValue .eq (.int 2)))) .nil)
      .nil .nil .nil {}
    let params := Params.empty .dollarNumbered
    let inner := "SELECT\n  *\nFROM\n  \x60s\x60\nWHERE\n  (\x60d\x60 = $2)"
    let text := "COALESCE($1, (" ++ inner ++ "), $3)"
    ((context.plug query).render default).run params =
        .ok (some text) (params.append [.int 1, .int 2, .int 3]) ∧
      ∃ before after : Document, ∃ written bound,
        (Node.render default query).run (params.append before.literals) =
            .ok written ((params.append before.literals).append bound) ∧
          text = write .dollarNumbered 0 before ++ Layout.parenthesized written ++
            Segment.join .dollarNumbered
              ((after.segments before.literals.length).map (Segment.shift bound.length)) := by
  intro context query params inner text
  have hrender : ((context.plug query).render default).run (Params.empty .dollarNumbered) =
      .ok (some text) (params.append [.int 1, .int 2, .int 3]) := rfl
  obtain ⟨before, after, hregion⟩ := subquery_changes_only_its_region default context
  obtain ⟨⟨written, bound, halone, htext, -, -⟩, -⟩ := hregion params _ query (some text) hrender
  have hstart : params.size + before.literals.length = before.literals.length := Nat.zero_add _
  refine ⟨hrender, before, after, written, bound,
    halone _ rfl (Params.size_append params before.literals), ?_⟩
  rw [← hstart]
  exact Option.some.inj htext

end Part.Context

end SqlSelect
