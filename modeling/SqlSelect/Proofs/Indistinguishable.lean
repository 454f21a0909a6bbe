import SqlSelect.Proofs.MapLiterals

/-!
# Parts that differ in their literals

Two parts of the same shape are rendered alike: literals reach the parameters and
never the text. The proof goes through the part that has the null literal in all
places, which the two parts share.
-/

namespace SqlSelect

open Document

/-! ## Both results of a rendering -/

/-- What is rendered, or the reason why there is nothing. -/
def answer {α : Type} : EStateM.Result BuildError Params α → Except BuildError α
  | .ok result _ => .ok result
  | .error error _ => .error error

/-- The parameters afterwards, which a failure leaves behind too. -/
def leftover {α : Type} : EStateM.Result BuildError Params α → Params
  | .ok _ after => after
  | .error _ after => after

/-- There is nothing in a result but its answer and the parameters. -/
theorem eq_of_answer_eq {α : Type} {first second : EStateM.Result BuildError Params α}
    (hanswer : answer first = answer second) (hleftover : leftover first = leftover second) :
    first = second := by
  cases first <;> cases second <;> cases hanswer <;> cases hleftover <;> rfl

/-- The answer depends on the parameters only by their number and their style. -/
theorem Delivers.answer_eq {base : Params} {kind : Kind}
    {result : EStateM.Result BuildError Params (kind.Rendered String)}
    {reference : Except BuildError (kind.Rendered Document)}
    (h : Delivers base kind result reference) :
    answer result = kind.write base.placeholder base.size <$> reference := by
  cases h with
  | written htext hafter => rw [htext]; rfl
  | failed error after => rfl

theorem Follows.leftover_eq {α : Type} {rendering : Rendering α} {visit : Visit}
    (h : Follows rendering visit) (params : Params) :
    leftover (rendering params) = params.append visit.bound := by
  have hafter : (conclusion (rendering params)).2 = params.append visit.bound :=
    congrArg Prod.snd (h params)
  rw [← hafter]
  cases rendering params <;> rfl

theorem Follows.isOk_answer {α : Type} {rendering : Rendering α} {visit : Visit}
    (h : Follows rendering visit) (params : Params) :
    (answer (rendering params)).isOk = visit.fault?.isNone := by
  have hfault : (conclusion (rendering params)).1 = visit.fault? :=
    congrArg Prod.fst (h params)
  rw [← hfault]
  cases rendering params <;> rfl

theorem answer_map {α β : Type} (layout : α → β) (rendering : Rendering α) (params : Params) :
    answer ((layout <$> rendering).run params) = layout <$> answer (rendering.run params) := by
  change answer (EStateM.map layout rendering params) = layout <$> answer (rendering params)
  unfold EStateM.map
  cases rendering params <;> rfl

theorem leftover_map {α β : Type} (layout : α → β) (rendering : Rendering α) (params : Params) :
    leftover ((layout <$> rendering).run params) = leftover (rendering.run params) := by
  change leftover (EStateM.map layout rendering params) = leftover (rendering params)
  unfold EStateM.map
  cases rendering params <;> rfl

/-- What is prepared are the answer and the values left over. -/
theorem prepare_eq {text : Type} (placeholder : Placeholder) (rendering : Rendering text) :
    prepare placeholder rendering =
      (⟨·, (leftover (rendering.run (Params.empty placeholder))).values⟩) <$>
        answer (rendering.run (Params.empty placeholder)) := by
  unfold prepare
  cases rendering.run (Params.empty placeholder) <;> rfl

theorem Kind.write_mapLiterals (change : Value → Value) (placeholder : Placeholder) (bound : Nat)
    (kind : Kind) (document : kind.Rendered Document) :
    kind.write placeholder bound (kind.mapLiterals change document) =
      kind.write placeholder bound document := by
  cases kind with
  | one category => exact Document.write_mapLiterals change placeholder bound document
  | many category => exact Document.writeAll_mapLiterals change placeholder bound document
  | maybe category => cases document <;> simp [Kind.write, Kind.mapLiterals]

/-- A change of the literals does not change the answer. -/
theorem Node.answer_mapLiterals (change : Value → Value) (style : Style) {kind : Kind}
    (node : Node kind) {params others : Params}
    (hplaceholder : params.placeholder = others.placeholder) (hsize : params.size = others.size) :
    answer ((render style (mapLiterals change node)).run params) =
      answer ((render style node).run others) := by
  have hchanged := (render_delivers style (mapLiterals change node) params).answer_eq
  have hgiven := (render_delivers style node others).answer_eq
  calc
    _ = kind.write params.placeholder params.size <$>
        document style (mapLiterals change node) := hchanged
    _ = kind.write others.placeholder others.size <$> document style node := by
      rw [document_mapLiterals, hplaceholder, hsize, Functor.map_map]
      simp only [Kind.write_mapLiterals]
    _ = _ := hgiven.symm

/-! ## Parts -/

namespace Piece

def literals : Piece → List Value
  | node one => one.literals
  | columns items => items.literals
  | groupKeys items => items.literals
  | orderings items => items.literals

def visit : Piece → Visit
  | node one => one.visit
  | columns items => items.visit
  | groupKeys items => items.visit
  | orderings items => items.visit

def mapLiterals (change : Value → Value) : Piece → Piece
  | node one => node (one.mapLiterals change)
  | columns items => columns (items.mapLiterals change)
  | groupKeys items => groupKeys (items.mapLiterals change)
  | orderings items => orderings (items.mapLiterals change)

theorem render_follows (style : Style) (piece : Piece) :
    Follows (piece.render style) piece.visit := by
  cases piece with
  | node one => exact Node.render_follows style one
  | columns items => exact (Node.render_follows style items).map
  | groupKeys items => exact (Node.render_follows style items).map
  | orderings items => exact (Node.render_follows style items).map

theorem visit_reads (piece : Piece) : piece.visit.Reads piece.literals := by
  cases piece <;> exact Node.visit_reads _

variable (change : Value → Value)

theorem visit_mapLiterals (piece : Piece) :
    (piece.mapLiterals change).visit = piece.visit.mapLiterals change := by
  cases piece <;> exact Node.visit_mapLiterals change _

end Piece

namespace Part

def literals : Part → List Value
  | piece one => one.literals
  | group entries => entries.literals

def visit : Part → Visit
  | piece one => one.visit
  | group entries => entries.visit

def mapLiterals (change : Value → Value) : Part → Part
  | piece one => piece (one.mapLiterals change)
  | group entries => group (entries.mapLiterals change)

/-- Parts of one kind that differ at most in their literals. -/
inductive SameShape : Part → Part → Prop
  | node {category : Category} {first second : Node (.one category)}
      (h : first.sameShape second) : SameShape (piece (.node first)) (piece (.node second))
  | columns {first second : Node (.many .column)} (h : first.sameShape second) :
      SameShape (piece (.columns first)) (piece (.columns second))
  | groupKeys {first second : Node (.many .field)} (h : first.sameShape second) :
      SameShape (piece (.groupKeys first)) (piece (.groupKeys second))
  | orderings {first second : Node (.many .ordering)} (h : first.sameShape second) :
      SameShape (piece (.orderings first)) (piece (.orderings second))
  | group {first second : Group} (h : first.sameShape second) :
      SameShape (group first) (group second)

theorem render_follows (style : Style) (part : Part) : Follows (part.render style) part.visit := by
  cases part with
  | piece one => exact (Piece.render_follows style one).map
  | group entries => exact (Node.render_follows style entries).map

/-- What is written and what is met make up the rendering. -/
theorem render_congr_of_document {style : Style} {first second : Part}
    (hdocument : first.document style = second.document style)
    (hvisit : first.visit = second.visit) : first.render style = second.render style := by
  funext params
  apply eq_of_answer_eq
  · rw [(first.render_delivers style params).answer_eq,
      (second.render_delivers style params).answer_eq, hdocument]
  · rw [(first.render_follows style).leftover_eq, (second.render_follows style).leftover_eq,
      hvisit]

theorem visit_reads (part : Part) : part.visit.Reads part.literals := by
  cases part with
  | piece one => exact Piece.visit_reads one
  | group entries => exact Node.visit_reads entries

variable (change : Value → Value)

theorem visit_mapLiterals (part : Part) :
    (part.mapLiterals change).visit = part.visit.mapLiterals change := by
  cases part with
  | piece one => exact Piece.visit_mapLiterals change one
  | group entries => exact Node.visit_mapLiterals change entries

/-! ## What literals can reach -/

/-- A change of the literals does not change the answer. -/
theorem answer_mapLiterals (style : Style) (part : Part) {params others : Params}
    (hplaceholder : params.placeholder = others.placeholder) (hsize : params.size = others.size) :
    answer (((part.mapLiterals change).render style).run params) =
      answer ((part.render style).run others) := by
  have hnode {kind : Kind} (node : Node kind) :=
    Node.answer_mapLiterals change style node hplaceholder hsize
  cases part with
  | piece one =>
    cases one <;>
      simp only [mapLiterals, Piece.mapLiterals, render, Piece.render, answer_map, hnode]
  | group entries =>
    simp only [mapLiterals, render, Group.render, answer_map, hnode, Node.conjunctions_mapLiterals]

/-- Nor does it change how many values are bound. -/
theorem length_bound_mapLiterals (part : Part) :
    (part.mapLiterals change).visit.bound.length = part.visit.bound.length := by
  rw [visit_mapLiterals, Visit.bound_mapLiterals, List.length_map]

theorem mapLiterals_eq_of_sameShape {first second : Part} (h : SameShape first second) :
    first.mapLiterals (fun _ ↦ .null) = second.mapLiterals (fun _ ↦ .null) := by
  have hnode {kind : Kind} {node other : Node kind} (hshape : node.sameShape other) :
      node.mapLiterals (fun _ ↦ .null) = other.mapLiterals (fun _ ↦ .null) :=
    Node.mapLiterals_eq_of_agree _ (fun _ _ _ ↦ rfl) hshape
  cases h <;> simp [mapLiterals, Piece.mapLiterals, hnode ‹_›]

/-- The values bound are the first literals of the part, and all of them if it has a text. -/
theorem leftover_render (style : Style) (part : Part) (params : Params) :
    leftover ((part.render style).run params) =
        params.append (part.literals.take part.visit.bound.length) ∧
      ((answer ((part.render style).run params)).isOk →
        part.visit.bound.length = part.literals.length) := by
  have hfollows := render_follows style part
  have hreads := visit_reads part
  constructor
  · rw [← List.prefix_iff_eq_take.mp hreads.bound_prefix]
    exact hfollows.leftover_eq params
  · intro hok
    have hnone := hfollows.isOk_answer params
    rw [hreads.bound_eq (Option.isNone_iff_eq_none.mp (hnone.symm.trans hok))]

/-- Parts of the same shape have the same answer from parameters of the same style and number,
and each leaves as many of its own literals bound as the other. -/
theorem render_sameShape (style : Style) {first second : Part} (h : SameShape first second)
    {params others : Params} (hplaceholder : params.placeholder = others.placeholder)
    (hsize : params.size = others.size) :
    answer ((first.render style).run params) = answer ((second.render style).run others) ∧
      ∃ count,
        leftover ((first.render style).run params) = params.append (first.literals.take count) ∧
        leftover ((second.render style).run others) =
          others.append (second.literals.take count) ∧
        ((answer ((first.render style).run params)).isOk →
          count = first.literals.length ∧ count = second.literals.length) := by
  have hblank := mapLiterals_eq_of_sameShape h
  have hanswer : answer ((first.render style).run params) =
      answer ((second.render style).run others) := by
    calc
      _ = answer (((first.mapLiterals fun _ ↦ .null).render style).run params) :=
        (answer_mapLiterals _ style first rfl rfl).symm
      _ = answer (((second.mapLiterals fun _ ↦ .null).render style).run params) := by rw [hblank]
      _ = _ := answer_mapLiterals _ style second hplaceholder hsize
  have hcount : first.visit.bound.length = second.visit.bound.length := by
    rw [← length_bound_mapLiterals (fun _ ↦ .null) first, hblank, length_bound_mapLiterals]
  obtain ⟨hfirst, hallFirst⟩ := leftover_render style first params
  obtain ⟨hsecond, hallSecond⟩ := leftover_render style second others
  refine ⟨hanswer, first.visit.bound.length, hfirst, hcount ▸ hsecond, fun hok ↦ ⟨?_, ?_⟩⟩
  · exact hallFirst hok
  · rw [hcount]
    exact hallSecond (hanswer ▸ hok)

end Part

end SqlSelect
