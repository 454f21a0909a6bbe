import Mathlib.Logic.Relation
import SqlSelect.Proofs.Canonical
import SqlSelect.Proofs.Context
import SqlSelect.Proofs.Indistinguishable

/-!
# Retouching groups

A group is retouched by dropping an entry that vanishes or by giving another
conjunction to the first entry that is written. Wherever in a tree this is done, and
however often, the canonical form stays the same, and a rendering does not depend on
more than that.
-/

namespace SqlSelect

namespace Node

/-! ## What is met in a canonical node -/

theorem vanishes_prune : ∀ entries : Group, vanishes (prune entries) = vanishes entries
  | nil => rfl
  | cons first rest => by
    have hrest := vanishes_prune rest
    rw [prune_cons]
    cases hvanishes : vanishes first <;> simp [vanishes, hvanishes, hrest]

theorem vanishes_withConjunction (conjunction : Conjunction) (entry : Node (.one .entry)) :
    vanishes (entry.withConjunction conjunction) = vanishes entry := by
  cases entry <;> rfl

theorem vanishes_tidy (entries : Group) : vanishes (tidy entries) = vanishes entries := by
  have hlead : ∀ entries : Group, vanishes (lead entries) = vanishes entries
    | nil => rfl
    | cons first rest => by simp only [lead, vanishes, vanishes_withConjunction]
  rw [tidy, hlead, vanishes_prune]

/-- In entries that vanish nothing is met. -/
theorem visit_of_vanishes {kind : Kind} {node : Node kind} (h : vanishes node) :
    visit node = [] := by
  induction node with
  | raw _ | nil => rfl
  | standalone _ ih | single _ _ ih | nested _ _ ih => exact ih h
  | cons first rest ihFirst ihRest =>
    obtain ⟨hfirst, hrest⟩ := Bool.and_eq_true_iff.mp h
    rw [visit, ihFirst hfirst, ihRest hrest, List.append_nil]
  | _ => cases h

theorem visit_prune : ∀ entries : Group, visit (prune entries) = visit entries
  | nil => rfl
  | cons first rest => by
    have hrest := visit_prune rest
    rw [prune_cons]
    cases hvanishes : vanishes first with
    | true => rw [if_pos rfl, visit, visit_of_vanishes hvanishes, hrest, List.nil_append]
    | false => rw [if_neg (by simp), visit, visit, hrest]

theorem visit_tidy (entries : Group) : visit (tidy entries) = visit entries := by
  have hentry : ∀ entry : Node (.one .entry), visit (entry.withConjunction .and) = visit entry
    | single _ _ | nested _ _ => rfl
  have hlead : ∀ entries : Group, visit (lead entries) = visit entries
    | nil => rfl
    | cons first rest => by simp only [lead, visit, hentry]
  rw [tidy, hlead, visit_prune]

theorem vanishes_canonical {kind : Kind} (node : Node kind) :
    vanishes (canonical node) = vanishes node := by
  induction node with
  | standalone _ ih | single _ _ ih => exact ih
  | nested _ group ih => exact (vanishes_tidy (canonical group)).trans ih
  | cons _ _ ihFirst ihRest => simp only [canonical, vanishes, ihFirst, ihRest]
  | _ => rfl

theorem visit_canonical {kind : Kind} (node : Node kind) : visit (canonical node) = visit node := by
  induction node with
  | name _ | verbatim _ | literal _ | compareValue _ _ | compareList _ _ | nullTest _ | raw _
    | namedTable _ _ | nil | absent => rfl
  | computed _ ih | subquery _ ih | inline _ ih | existsTest _ _ ih | jsonObject _ ih
    | jsonArray _ ih | standalone _ ih | single _ _ ih | conditionTest _ ih | member _ _ ih
    | column _ _ ih | derivedTable _ _ ih | join _ _ _ ih | ordering _ _ ih
    | present _ ih => exact ih
  | compareField _ _ ih => simp only [canonical, visit, fieldAllowed_canonical, ih]
  | compareExpr _ _ ih => simp only [canonical, visit, ih]
  | caseWhen _ _ _ ihFirst ihRest ihOtherwise =>
    simp only [canonical, visit, ihFirst, ihRest, ihOtherwise]
  | coalesce _ ih => simp only [canonical, visit, isEmpty_canonical, ih]
  | paired _ _ ihLeft ihRight | compareTest _ _ ihLeft ihRight | branch _ _ ihLeft ihRight
    | cons _ _ ihLeft ihRight => simp only [canonical, visit, ihLeft, ihRight]
  | nested _ _ ih => simp only [canonical, visit, visit_tidy, ih]
  | groupTest _ ih =>
    simp only [canonical, visit, visit_tidy, vanishes_tidy, vanishes_canonical, ih]
  | select columns source joins filter groupKeys having orderings attributes ihColumns ihSource
      ihJoins ihFilter ihGroupKeys ihHaving ihOrderings =>
    cases source with
    | absent => rfl
    | present source =>
      have hsource : visit (canonical source) = visit source := ihSource
      simp only [canonical, visit, visit_tidy, hsource, ihColumns, ihJoins, ihFilter, ihGroupKeys,
        ihHaving, ihOrderings]

end Node

namespace Part

/-- The part with all groups in it, or it itself, tidied. -/
def canonical : Part → Part
  | piece (.node one) => piece (.node one.canonical)
  | piece (.columns items) => piece (.columns items.canonical)
  | piece (.groupKeys items) => piece (.groupKeys items.canonical)
  | piece (.orderings items) => piece (.orderings items.canonical)
  | group entries => group (Group.canonical entries)

theorem render_canonical (style : Style) (part : Part) :
    part.canonical.render style = part.render style := by
  apply render_congr_of_document
  · cases part with
    | piece one =>
      cases one <;> simp only [canonical, document, Piece.document, Node.document_canonical]
    | group entries => exact Group.document_canonical style entries
  · cases part with
    | piece one => cases one <;> exact Node.visit_canonical _
    | group entries => exact (Node.visit_tidy _).trans (Node.visit_canonical entries)

end Part

/-! ## Retouching -/

/-- One entry that vanishes is dropped, or the first entry that does not is given another
conjunction. -/
inductive Group.Retouched : Group → Group → Prop
  | dropped (before after : List (Node (.one .entry))) {entry : Node (.one .entry)}
      (hentry : entry.vanishes) :
      Retouched (.ofList (before ++ entry :: after)) (.ofList (before ++ after))
  | reconjoined (before after : List (Node (.one .entry))) {entry : Node (.one .entry)}
      (conjunction : Conjunction) (hbefore : ∀ earlier ∈ before, earlier.vanishes)
      (hentry : ¬entry.vanishes) :
      Retouched (.ofList (before ++ entry :: after))
        (.ofList (before ++ entry.withConjunction conjunction :: after))

/-- One group in a node is retouched: the group of a nested entry, of a WHEN, of WHERE or of
HAVING, at any depth and also where it is not read. -/
inductive Node.Retouched : {kind : Kind} → Node kind → Node kind → Prop
  | group {category : Category} (frame : Frame (.many .entry) (.one category))
      {entries others : Group} (h : Group.Retouched entries others) :
      Retouched (frame.plug entries) (frame.plug others)
  | within {inner outer : Kind} (frame : Frame inner outer) {node other : Node inner}
      (h : Retouched node other) : Retouched (frame.plug node) (frame.plug other)
  | covered (clauses : Clauses) (hhead : clauses.attributes.head.isSome)
      {columns others : Node (.many .column)} (h : Retouched columns others) :
      Retouched (Select.ofClauses { clauses with columns })
        (Select.ofClauses { clauses with columns := others })

/-- One group in a part is retouched, or the part itself if it is a group. -/
inductive Part.Retouched : Part → Part → Prop
  | node {category : Category} {one other : Node (.one category)} (h : one.Retouched other) :
      Retouched (.piece (.node one)) (.piece (.node other))
  | columns {items others : Node (.many .column)} (h : items.Retouched others) :
      Retouched (.piece (.columns items)) (.piece (.columns others))
  | groupKeys {items others : Node (.many .field)} (h : items.Retouched others) :
      Retouched (.piece (.groupKeys items)) (.piece (.groupKeys others))
  | orderings {items others : Node (.many .ordering)} (h : items.Retouched others) :
      Retouched (.piece (.orderings items)) (.piece (.orderings others))
  | entries {entries others : Group} (h : Node.Retouched entries others) :
      Retouched (.group entries) (.group others)
  | group {entries others : Group} (h : Group.Retouched entries others) :
      Retouched (.group entries) (.group others)

namespace Node

theorem canonical_ofList {category : Category} (nodes : List (Node (.one category))) :
    canonical (ofList nodes) = ofList (nodes.map canonical) := by
  induction nodes with
  | nil => rfl
  | cons first rest ih => simp only [ofList, canonical, ih, List.map_cons]

theorem canonical_withConjunction (conjunction : Conjunction) (entry : Node (.one .entry)) :
    canonical (entry.withConjunction conjunction) =
      (canonical entry).withConjunction conjunction := by
  cases entry <;> rfl

/-- The entries that the canonical form keeps are those that do not vanish. -/
theorem prune_canonical_ofList (entries : List (Node (.one .entry))) :
    prune (canonical (ofList entries)) =
      ofList ((entries.filter fun entry ↦ !vanishes entry).map canonical) := by
  have hkeeps : (fun entry : Node (.one .entry) ↦ !vanishes entry) ∘ canonical =
      fun entry ↦ !vanishes entry := by
    funext entry
    simp only [Function.comp_apply, vanishes_canonical]
  rw [canonical_ofList, prune, toList_ofList, List.filter_map, hkeeps]

end Node

theorem Group.Retouched.canonical_eq {entries others : Group} (h : Retouched entries others) :
    Group.canonical entries = Group.canonical others := by
  unfold Group.canonical Node.tidy
  cases h with
  | dropped before after hentry =>
    rw [Node.prune_canonical_ofList, Node.prune_canonical_ofList, List.filter_append,
      List.filter_append, List.filter_cons_of_neg (by simp [hentry])]
  | @reconjoined before after entry conjunction hbefore hentry =>
    have hnone : before.filter (fun earlier ↦ !earlier.vanishes) = [] := by
      simpa using hbefore
    have hagain : (entry.withConjunction conjunction).vanishes = entry.vanishes :=
      Node.vanishes_withConjunction conjunction entry
    have hlast : ∀ entry : Node (.one .entry),
        (entry.withConjunction conjunction).withConjunction .and = entry.withConjunction .and
      | .single _ _ | .nested _ _ => rfl
    rw [Node.prune_canonical_ofList, Node.prune_canonical_ofList, List.filter_append,
      List.filter_append, hnone, List.nil_append, List.nil_append,
      List.filter_cons_of_pos (by simp [hentry]),
      List.filter_cons_of_pos (by simp [hagain, hentry])]
    simp only [List.map_cons, Node.ofList, Node.lead, Node.canonical_withConjunction, hlast]

namespace Node

/-- The canonical form of a node is made up of those of its children. -/
theorem Frame.canonical_plug {inner outer : Kind} (frame : Frame inner outer)
    {node other : Node inner} (h : canonical node = canonical other) :
    canonical (frame.plug node) = canonical (frame.plug other) := by
  cases frame with
  | opening holder => cases holder <;> simp only [Frame.plug, Opening.plug, canonical, h]
  | clause clauses slot _ =>
    cases slot <;> simp only [Frame.plug, Slot.put, Select.ofClauses, canonical, h]
  | _ => simp only [Frame.plug, canonical, h]

theorem Frame.canonical_plug_group {category : Category}
    (frame : Frame (.many .entry) (.one category)) {entries others : Group}
    (h : Group.canonical entries = Group.canonical others) :
    canonical (frame.plug entries) = canonical (frame.plug others) := by
  unfold Group.canonical at h
  cases frame with
  | nested _ | groupTest => simp only [Frame.plug, canonical, h]
  | clause clauses slot _ =>
    cases slot <;> simp only [Frame.plug, Slot.put, Select.ofClauses, canonical, h]

theorem Retouched.canonical_eq {kind : Kind} {node other : Node kind} (h : Retouched node other) :
    canonical node = canonical other := by
  induction h with
  | group frame h => exact frame.canonical_plug_group h.canonical_eq
  | within frame _ ih => exact frame.canonical_plug ih
  | covered clauses _ _ ih => simp only [Select.ofClauses, canonical, ih]

end Node

namespace Part

theorem Retouched.canonical_eq {part other : Part} (h : Retouched part other) :
    part.canonical = other.canonical := by
  cases h with
  | node h | columns h | groupKeys h | orderings h => simp only [canonical, h.canonical_eq]
  | entries h => simp only [canonical, Group.canonical, h.canonical_eq]
  | group h => simp only [canonical, h.canonical_eq]

/-- Parts that are retouched into each other are rendered alike, and fail alike. -/
theorem render_eq_of_retouched (style : Style) {part other : Part}
    (h : Relation.ReflTransGen Retouched part other) : part.render style = other.render style := by
  have hcanonical : part.canonical = other.canonical := by
    induction h with
    | refl => rfl
    | tail _ hlast ih => exact ih.trans hlast.canonical_eq
  calc part.render style
      = part.canonical.render style := (part.render_canonical style).symm
    _ = other.canonical.render style := by rw [hcanonical]
    _ = other.render style := other.render_canonical style

end Part

end SqlSelect
