import SqlSelect.Proofs.Binding
import SqlSelect.Proofs.Context
import SqlSelect.Proofs.Enclosure

/-!
# Names that are quoted already

Quoting looks at the segments of a name one by one, so a name between quotes is cut at
the dots in it before the quotes are looked for. It stays as it is if each of its
segments encloses something on its own, and wherever it then stands in a tree it is as
good as a fragment of the same text.
-/

namespace SqlSelect

namespace Identifier

/-- Each segment that is not quoted becomes longer by two quotes. -/
theorem length_intercalate_quoteSegment (quote : List Char) (segments : List (List Char)) :
    (['.'].intercalate (segments.map (quoteSegment quote))).length =
      (['.'].intercalate segments).length +
        segments.countP (!Text.hasQuotedFragment ·) * (2 * quote.length) := by
  have hsegment (segment : List Char) : (quoteSegment quote segment).length =
      segment.length + (if !Text.hasQuotedFragment segment then 1 else 0) * (2 * quote.length) := by
    rw [quoteSegment]
    cases Text.hasQuotedFragment segment with
    | true => simp
    | false =>
      simp
      omega
  induction segments with
  | nil => simp
  | cons first rest ih =>
    cases rest with
    | nil => simp [hsegment]
    | cons second rest =>
      rw [List.map_cons] at ih
      rw [List.map_cons, List.map_cons, List.intercalate_cons_cons, List.intercalate_cons_cons,
        List.length_append, List.length_append, List.length_append, List.length_append, ih,
        hsegment, List.countP_cons (l := second :: rest), Nat.add_mul]
      omega

/-- A path stays as it is if its segments are quoted already. -/
theorem quotePath_eq_self_iff (quote name : List Char) :
    quotePath quote name = name ↔
      quote = [] ∨ ∀ segment ∈ segments name, Text.hasQuotedFragment segment := by
  have hname : ['.'].intercalate (segments name) = name := List.intercalate_splitOn '.'
  constructor
  · intro h
    have hlength := length_intercalate_quoteSegment quote (segments name)
    rw [← quotePath, h, hname] at hlength
    have hnone : (segments name).countP (!Text.hasQuotedFragment ·) * (2 * quote.length) = 0 := by
      omega
    rcases Nat.mul_eq_zero.mp hnone with hcount | hquote
    · exact .inr (by simpa [List.countP_eq_zero] using hcount)
    · exact .inl (List.length_eq_zero_iff.mp (by omega))
  · intro h
    have hsegments : (segments name).map (quoteSegment quote) = segments name := by
      refine (List.map_congr_left fun segment hsegment ↦ ?_).trans (List.map_id _)
      rcases h with rfl | hquoted
      · simp [quoteSegment]
      · rw [quoteSegment, hquoted segment hsegment]
        rfl
    rw [quotePath, hsegments, hname]

end Identifier

theorem Quoting.apply_eq_self_iff (quoting : Quoting) (name : String) :
    quoting.apply name = name ↔ quoting = .bare ∨ quoting = .marked "" ∨
      ∀ segment ∈ Identifier.segments name.toList, Text.hasQuotedFragment segment := by
  cases quoting with
  | bare => simp
  | marked quote =>
    rw [← String.toList_inj, toList_apply_marked, Identifier.quotePath_eq_self_iff]
    simp

/-! ## Fields in the places of fields -/

namespace Node

/-- Fields that are rendered alike, and that the nodes around them treat alike. -/
structure Interchangeable (style : Style) (first second : Field) : Prop where
  render_eq : render style first = render style second
  isComputed_eq : first.isComputed = second.isComputed
  isSubquery_eq : first.isSubquery = second.isSubquery

/-- A node without one of the fields in it. -/
inductive Position : Kind → Type where
  | field : Position (.one .field)
  | within {inner outer : Kind} (frame : Frame inner outer) (position : Position inner) :
      Position outer

namespace Position

/-- The node with the field put in. -/
def plug : {kind : Kind} → Position kind → Field → Node kind
  | _, field, one => one
  | _, within frame position, one => frame.plug (position.plug one)

theorem isEmpty_plug {category : Category} :
    ∀ (position : Position (.many category)) (one : Field), (position.plug one).isEmpty = false
  | within (.opening holder) _, _ => nomatch holder
  | within (.first _) _, _ => rfl
  | within (.rest _) _, _ => rfl

theorem exists_present {category : Category} : ∀ position : Position (.maybe category),
    ∃ inner : Position (.one category), ∀ one, position.plug one = .present (inner.plug one)
  | within (.opening holder) _ => nomatch holder
  | within .present inner => ⟨inner, fun _ ↦ rfl⟩

theorem exists_conjunction : ∀ position : Position (.one .entry),
    ∃ conjunction, ∀ one, (position.plug one).conjunction = conjunction
  | within (.opening holder) _ => nomatch holder
  | within (.single conjunction) _ => ⟨conjunction, fun _ ↦ rfl⟩
  | within (.nested conjunction) _ => ⟨conjunction, fun _ ↦ rfl⟩

theorem exists_conjunctions : ∀ position : Position (.many .entry),
    ∃ conjunctions, ∀ one, (position.plug one).conjunctions = conjunctions
  | within (.opening holder) _ => nomatch holder
  | within (.first rest) position => by
    obtain ⟨conjunction, hconjunction⟩ := exists_conjunction position
    exact ⟨conjunction :: rest.conjunctions,
      fun one ↦ congrArg (· :: rest.conjunctions) (hconjunction one)⟩
  | within (.rest first) position => by
    obtain ⟨conjunctions, hconjunctions⟩ := exists_conjunctions position
    exact ⟨first.conjunction :: conjunctions,
      fun one ↦ congrArg (first.conjunction :: ·) (hconjunctions one)⟩

variable {style : Style} {first second : Field} (h : Interchangeable style first second)
include h

theorem isComputed_plug : ∀ position : Position (.one .field),
    (position.plug first).isComputed = (position.plug second).isComputed
  | field => h.isComputed_eq
  | within (.opening .subquery) _ => rfl
  | within .computed _ => rfl

theorem fieldAllowed_plug (op : Operator) : ∀ position : Position (.one .field),
    fieldAllowed op (position.plug first) = fieldAllowed op (position.plug second)
  | field => by rw [plug, plug, fieldAllowed, fieldAllowed, h.isSubquery_eq]
  | within (.opening .subquery) _ => rfl
  | within .computed _ => rfl

omit h in
/-- A statement is rendered alike if the part of it in a slot is. -/
theorem render_put {kind : Kind} (slot : Slot kind) (clauses : Clauses) (position : Position kind)
    (hpart : render style (position.plug first) = render style (position.plug second)) :
    render style (Select.ofClauses (slot.put clauses (position.plug first))) =
      render style (Select.ofClauses (slot.put clauses (position.plug second))) := by
  obtain ⟨columns, source, joins, filter, groupKeys, having, orderings, attributes⟩ := clauses
  cases slot with
  | source =>
    obtain ⟨inner, hinner⟩ := position.exists_present
    rw [hinner, hinner] at hpart
    rw [hinner, hinner]
    have htable : render style (inner.plug first) = render style (inner.plug second) :=
      eq_of_return_some hpart
    simp only [Slot.put, Select.ofClauses, render, htable]
  | filter | having =>
    obtain ⟨conjunctions, hconjunctions⟩ := position.exists_conjunctions
    cases source <;> simp only [Slot.put, Select.ofClauses, render, hpart, hconjunctions]
  | _ => cases source <;> simp only [Slot.put, Select.ofClauses, render, hpart]

/-- Interchangeable fields may stand for each other in every position. -/
theorem render_plug {kind : Kind} (position : Position kind) :
    render style (position.plug first) = render style (position.plug second) := by
  induction position with
  | field => exact h.render_eq
  | within frame position ih =>
    cases frame with
    | opening holder => cases holder <;> simp only [plug, Frame.plug, Opening.plug, render, ih]
    | compareField op => simp only [plug, Frame.plug, render, position.fieldAllowed_plug h, ih]
    | coalesce => simp only [plug, Frame.plug, render, position.isEmpty_plug, ih]
    | pairedField assertion =>
      simp only [plug, Frame.plug, render, position.isComputed_plug h, ih]
    | nested _ | groupTest =>
      obtain ⟨conjunctions, hconjunctions⟩ := position.exists_conjunctions
      simp only [plug, Frame.plug, render, hconjunctions, ih]
    | clause clauses slot _ => exact render_put slot clauses position ih
    | _ => simp only [plug, Frame.plug, render, ih]

end Position

/-- A name that stays as it is can be given as a fragment. -/
theorem Interchangeable.of_identifier_eq_self {style : Style} {text : String}
    (h : style.identifier text = text) : Interchangeable style (.name text) (.verbatim text) where
  render_eq := by rw [render, render, h]
  isComputed_eq := rfl
  isSubquery_eq := rfl

end Node

/-! ## Quoted names -/

/-- A dot between the quotes leaves neither side of it quoted. -/
theorem quoted_name_with_dot_is_quoted_again :
    '\x60' ∈ Text.quoteMarks ∧ "a.b" ≠ "" ∧ '\x60' ∉ "a.b".toList ∧
      String.singleton '\x60' ++ "a.b" ++ String.singleton '\x60' = "\x60a.b\x60" ∧
      (Quoting.marked "\x60").apply "\x60a.b\x60" = "\x60\x60a\x60.\x60b\x60\x60" ∧
      (Quoting.marked "\x60").apply "\x60a.b\x60" ≠ "\x60a.b\x60" := by
  decide

/-- A name between quotes stays as it is exactly if no quotes are put, or each of its segments
encloses something between quotes, as the only one does if there is no dot in it. Where it stays as
it is, it can be given as a fragment in every position. -/
theorem quoted_names_pass_through {mark : Char} (hmark : mark ∈ Text.quoteMarks) {inner : String}
    (hinner : inner ≠ "") (quoting : Quoting) :
    let name := String.singleton mark ++ inner ++ String.singleton mark
    (quoting.apply name = name ↔ quoting = .bare ∨ quoting = .marked "" ∨
      ∀ segment ∈ Identifier.segments name.toList,
        ∃ quote ∈ Text.quoteMarks, Text.EnclosesSomething quote segment) ∧
    ('.' ∉ inner.toList → quoting.apply name = name) ∧
    (quoting.apply name = name → ∀ style : Style, style.quoting = quoting →
      (∀ (kind : Kind) (position : Node.Position kind),
        Node.render style (position.plug (.name name)) =
          Node.render style (position.plug (.verbatim name))) ∧
      ∀ position : Node.Position (.many .entry),
        Group.render style (position.plug (.name name)) =
          Group.render style (position.plug (.verbatim name))) := by
  intro name
  have hname : name.toList = mark :: inner.toList ++ [mark] := by simp [name]
  refine ⟨?_, ?_, ?_⟩
  · simp only [← Text.hasQuotedFragment_iff]
    exact quoting.apply_eq_self_iff name
  · intro hdot
    have hmarks : '.' ∉ Text.quoteMarks := by decide
    have hnone : '.' ∉ name.toList := by
      rw [hname, List.mem_append, List.mem_cons, List.mem_singleton]
      rintro ((rfl | hinside) | rfl)
      · exact hmarks hmark
      · exact hdot hinside
      · exact hmarks hmark
    refine (quoting.apply_eq_self_iff name).mpr (.inr (.inr ?_))
    rw [Identifier.segments, List.splitOn_eq_singleton hnone, List.forall_mem_singleton, hname]
    exact Text.hasQuotedFragment_of_enclosed hmark fun hempty ↦ hinner (by simpa using hempty)
  · rintro hsame style rfl
    have hfields : Node.Interchangeable style (.name name) (.verbatim name) :=
      .of_identifier_eq_self hsame
    refine ⟨fun kind position ↦ position.render_plug hfields, fun position ↦ ?_⟩
    obtain ⟨conjunctions, hconjunctions⟩ := position.exists_conjunctions
    rw [Group.render, Group.render, hconjunctions, hconjunctions, position.render_plug hfields]

/-- Other quotes and characters of several bytes between double quotes. -/
theorem quoted_names_pass_through_before_comparison :
    let name := String.singleton '\x22' ++ "\x60é'" ++ String.singleton '\x22'
    let position : Node.Position (.one .condition) :=
      .within (.pairedField (.compareValue .eq (.int 1))) .field
    '\x22' ∈ Text.quoteMarks ∧ "\x60é'" ≠ "" ∧ name = "\x22\x60é'\x22" ∧
      (Quoting.marked "\x60").apply name = name ∧
      Node.render default (position.plug (.name name)) =
        Node.render default (position.plug (.verbatim name)) := by
  intro name position
  have hmark : '\x22' ∈ Text.quoteMarks := by decide
  have hinner : "\x60é'" ≠ "" := by decide
  obtain ⟨-, hundotted, hfields⟩ := quoted_names_pass_through hmark hinner (.marked "\x60")
  have hsame : (Quoting.marked "\x60").apply name = name := hundotted (by decide)
  exact ⟨hmark, hinner, by decide, hsame, (hfields hsame default rfl).1 _ position⟩

end SqlSelect
