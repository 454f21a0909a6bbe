import Mathlib.Data.List.Basic
import SqlSelect.Proofs.AlreadyQuoted
import SqlSelect.Proofs.Readback

/-!
# Quoting segment by segment

A quote without a dot in it leaves the dots of a name where they are, so the segments of
the quoted name are those of the name, each quoted on its own. What quoting does to whole
names is read off from this: names joined by a dot can be quoted apart, different names
stay different, and quoting again changes nothing unless a segment is empty.
-/

namespace SqlSelect

namespace Identifier

/-! ## Segments of names and of quoted names -/

theorem segments_append_dot (first second : List Char) :
    segments (first ++ '.' :: second) = segments first ++ segments second :=
  List.splitOn_append_cons_self first second

theorem dot_not_mem_segment {name segment : List Char} (h : segment ∈ segments name) :
    '.' ∉ segment := by
  induction name generalizing segment with
  | nil =>
    rw [segments, List.splitOn_nil, List.mem_singleton] at h
    simp [h]
  | cons c cs ih =>
    obtain ⟨first, rest, hcs⟩ := List.exists_cons_of_ne_nil (List.splitOn_ne_nil '.' cs)
    rw [segments, hcs] at ih
    rw [segments, List.splitOn_cons_eq_if_modifyHead, hcs] at h
    split at h
    · rcases List.mem_cons.mp h with rfl | hrest
      · exact List.not_mem_nil
      · exact ih hrest
    · rename_i hc
      rcases List.mem_cons.mp h with rfl | hrest
      · have hdot : '.' ≠ c := by
          rintro rfl
          exact hc (beq_self_eq_true '.')
        rw [List.mem_cons, not_or]
        exact ⟨hdot, ih List.mem_cons_self⟩
      · exact ih (List.mem_cons_of_mem first hrest)

theorem dot_not_mem_quoteSegment {quote segment : List Char} (hquote : '.' ∉ quote)
    (hsegment : '.' ∉ segment) : '.' ∉ quoteSegment quote segment := by
  unfold quoteSegment
  split
  · exact hsegment
  · simp [hquote, hsegment]

theorem segments_quotePath {quote : List Char} (hquote : '.' ∉ quote) (name : List Char) :
    segments (quotePath quote name) = (segments name).map (quoteSegment quote) := by
  apply List.splitOn_intercalate
  · intro quoted hquoted
    obtain ⟨segment, hsegment, rfl⟩ := List.mem_map.mp hquoted
    exact dot_not_mem_quoteSegment hquote (dot_not_mem_segment hsegment)
  · have hne : segments name ≠ [] := List.splitOn_ne_nil '.' name
    simpa using hne

/-- With a dot before each segment, none of them is special. -/
theorem dot_cons_quotePath (quote name : List Char) :
    '.' :: quotePath quote name =
      (segments name).flatMap fun segment ↦ '.' :: quoteSegment quote segment := by
  have hne : segments name ≠ [] := List.splitOn_ne_nil '.' name
  rw [quotePath, cons_intercalate '.' (by simpa using hne), List.flatMap_map]

theorem quotePath_append_dot (quote first second : List Char) :
    quotePath quote (first ++ '.' :: second) =
      quotePath quote first ++ '.' :: quotePath quote second := by
  apply List.cons_injective (a := '.')
  calc '.' :: quotePath quote (first ++ '.' :: second)
      = (segments first ++ segments second).flatMap
          fun segment ↦ '.' :: quoteSegment quote segment := by
        rw [dot_cons_quotePath, segments_append_dot]
    _ = ('.' :: quotePath quote first) ++ ('.' :: quotePath quote second) := by
        rw [List.flatMap_append, dot_cons_quotePath, dot_cons_quotePath]
    _ = '.' :: (quotePath quote first ++ '.' :: quotePath quote second) := rfl

/-! ## Segments after quoting -/

/-- Only the empty segment is not recognised once quotes stand around it. -/
theorem hasQuotedFragment_quoteSegment_iff {mark : Char} (hmark : mark ∈ Text.quoteMarks)
    (segment : List Char) :
    Text.hasQuotedFragment (quoteSegment [mark] segment) ↔ segment ≠ [] := by
  constructor
  · rintro hquoted rfl
    have hempty : Text.quoteMarks.all fun mark ↦
        !Text.hasQuotedFragment (quoteSegment [mark] []) := by
      decide
    have hnone := List.all_eq_true.mp hempty mark hmark
    rw [hquoted] at hnone
    cases hnone
  · intro hsegment
    unfold quoteSegment
    split
    · assumption
    · exact Text.hasQuotedFragment_of_enclosed hmark hsegment

/-- The segments of names without quotes can be read off from the quoted names. -/
theorem segments_eq_of_quotePath_eq {quote name other : List Char} (hquote : '.' ∉ quote)
    (hname : Unquoted name) (hother : Unquoted other)
    (h : quotePath quote name = quotePath quote other) : segments name = segments other := by
  have hquoted {path : List Char} (hpath : Unquoted path) :
      (segments path).map (quoteSegment quote) =
        (segments path).map fun segment ↦ quote ++ segment ++ quote :=
    List.map_congr_left fun segment hsegment ↦ (hpath.segment hsegment).quoteSegment_eq quote
  have hinjective : Function.Injective fun segment ↦ quote ++ segment ++ quote := by
    intro segment segment' hsame
    exact List.append_cancel_left (List.append_cancel_right hsame)
  apply List.map_injective_iff.mpr hinjective
  calc (segments name).map (fun segment ↦ quote ++ segment ++ quote)
      = segments (quotePath quote name) := by rw [segments_quotePath hquote, hquoted hname]
    _ = segments (quotePath quote other) := by rw [h]
    _ = (segments other).map (fun segment ↦ quote ++ segment ++ quote) := by
        rw [segments_quotePath hquote, hquoted hother]

end Identifier

/-! ## Quoted names -/

/-- Quoting again changes nothing exactly if no segment of the name is empty. -/
theorem quoting_twice_eq_quoting_once_iff {mark : Char} (hmark : mark ∈ Text.quoteMarks)
    (name : String) :
    let quoting := Quoting.marked (String.singleton mark)
    quoting.apply (quoting.apply name) = quoting.apply name ↔
      ∀ segment ∈ Identifier.segments name.toList, segment ≠ [] := by
  intro quoting
  have hdot : '.' ∉ [mark] := by
    have hmarks : '.' ∉ Text.quoteMarks := by decide
    rw [List.mem_singleton]
    rintro rfl
    exact hmarks hmark
  calc quoting.apply (quoting.apply name) = quoting.apply name
      ↔ Identifier.quotePath [mark] (Identifier.quotePath [mark] name.toList) =
          Identifier.quotePath [mark] name.toList := by
        rw [← String.toList_inj]
        simp [quoting]
    _ ↔ ∀ segment ∈ Identifier.segments (Identifier.quotePath [mark] name.toList),
          Text.hasQuotedFragment segment := by
        simp [Identifier.quotePath_eq_self_iff]
    _ ↔ ∀ segment ∈ Identifier.segments name.toList,
          Text.hasQuotedFragment (Identifier.quoteSegment [mark] segment) := by
        rw [Identifier.segments_quotePath hdot, List.forall_mem_map]
    _ ↔ ∀ segment ∈ Identifier.segments name.toList, segment ≠ [] := by
        simp only [Identifier.hasQuotedFragment_quoteSegment_iff hmark]

/-- A foreign quote, a stray one and two adjacent ones are recognised once quotes stand around them;
the empty segment between two dots is not. -/
theorem quoting_twice_eq_quoting_once_iff_beside_stray_quotes :
    let quoting := Quoting.marked (String.singleton '\x60')
    '\x60' ∈ Text.quoteMarks ∧
      quoting.apply "it's.\x60.\x60\x60" = "\x60it's\x60.\x60\x60\x60.\x60\x60\x60\x60" ∧
      quoting.apply (quoting.apply "it's.\x60.\x60\x60") = quoting.apply "it's.\x60.\x60\x60" ∧
      quoting.apply (quoting.apply "a..b") ≠ quoting.apply "a..b" := by
  intro quoting
  have hmark : '\x60' ∈ Text.quoteMarks := by decide
  refine ⟨hmark, by decide, ?_, ?_⟩
  · exact (quoting_twice_eq_quoting_once_iff hmark _).mpr (by decide)
  · intro hsame
    exact (quoting_twice_eq_quoting_once_iff hmark _).mp hsame [] (by decide) rfl

/-- Names joined by a dot are quoted apart. A quote without a dot keeps the number of segments, and
leaves those that have something between two equal marks as they are and stands on both sides of
the others. It keeps names without marks apart. -/
theorem names_are_quoted_segment_by_segment :
    (∀ (quoting : Quoting) (first second : String),
      quoting.apply (first ++ "." ++ second) =
        quoting.apply first ++ "." ++ quoting.apply second) ∧
    ∀ quote : String, '.' ∉ quote.toList →
      (∀ name : String,
        let before := Identifier.segments name.toList
        let after := Identifier.segments ((Quoting.marked quote).apply name).toList
        after.length = before.length ∧
        ∀ (i : Nat) (segment : List Char), before[i]? = some segment →
          ((∃ mark ∈ Text.quoteMarks, Text.EnclosesSomething mark segment) →
            after[i]? = some segment) ∧
          (¬(∃ mark ∈ Text.quoteMarks, Text.EnclosesSomething mark segment) →
            after[i]? = some (quote.toList ++ segment ++ quote.toList))) ∧
      ∀ name other : String, Unquoted name.toList → Unquoted other.toList →
        (Quoting.marked quote).apply name = (Quoting.marked quote).apply other →
          name = other := by
  refine ⟨?_, fun quote hquote ↦ ⟨?_, ?_⟩⟩
  · intro quoting first second
    cases quoting with
    | bare => rfl
    | marked quote =>
      apply String.toList_inj.mp
      simp [Identifier.quotePath_append_dot]
  · intro name before after
    have hafter : after = before.map (Identifier.quoteSegment quote.toList) := by
      simp only [after, before, Quoting.toList_apply_marked]
      exact Identifier.segments_quotePath hquote name.toList
    rw [hafter]
    refine ⟨List.length_map _, fun i segment hsegment ↦ ?_⟩
    rw [List.getElem?_map, hsegment, Option.map_some, ← Text.hasQuotedFragment_iff]
    constructor
    · intro hquoted
      rw [Identifier.quoteSegment, if_pos hquoted]
    · intro hquoted
      rw [Identifier.quoteSegment, if_neg hquoted]
  · intro name other hname hother hsame
    have hpath := congrArg String.toList hsame
    rw [Quoting.toList_apply_marked, Quoting.toList_apply_marked] at hpath
    exact segments_injective (Identifier.segments_eq_of_quotePath_eq hquote hname hother hpath)

/-- Dots at the ends, and a quote of two characters of which one is a mark itself. -/
theorem names_are_quoted_segment_by_segment_at_outer_dots :
    let quoting := Quoting.marked "[\x22"
    '.' ∉ "[\x22".toList ∧
      quoting.apply ".\x60é\x60.b" = "[\x22[\x22.\x60é\x60.[\x22b[\x22" ∧
      (Identifier.segments (quoting.apply ".\x60é\x60.b").toList).length = 3 ∧
      (Identifier.segments (quoting.apply ".\x60é\x60.b").toList)[1]? = some "\x60é\x60".toList ∧
      quoting.apply "a." ≠ quoting.apply ".a" := by
  intro quoting
  have hquote : '.' ∉ "[\x22".toList := by decide
  obtain ⟨hsegments, hinjective⟩ := names_are_quoted_segment_by_segment.2 "[\x22" hquote
  obtain ⟨hlength, hsegment⟩ := hsegments ".\x60é\x60.b"
  have hencloses : ∃ mark ∈ Text.quoteMarks, Text.EnclosesSomething mark "\x60é\x60".toList :=
    (Text.hasQuotedFragment_iff _).mp (by decide)
  refine ⟨hquote, by decide, hlength, (hsegment 1 _ (by decide)).1 hencloses, ?_⟩
  intro hsame
  exact absurd (hinjective "a." ".a" (by decide) (by decide) hsame) (by decide)

end SqlSelect
