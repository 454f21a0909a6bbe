import SqlSelect.Text.Fragment

/-!
# Marks with something between them

The first and the last occurrence of a mark are compared by their offsets in the encoded
text. A mark takes one byte there and every character at least one, so the comparison
tells exactly whether the mark occurs twice with something in between, whatever
characters stand around and between the two.
-/

namespace SqlSelect.Text

/-- How many bytes a text takes when it is encoded. -/
def byteLength : List Char → Nat
  | [] => 0
  | c :: cs => c.utf8Size + byteLength cs

@[simp] theorem byteLength_nil : byteLength [] = 0 :=
  rfl

@[simp] theorem byteLength_cons (c : Char) (cs : List Char) :
    byteLength (c :: cs) = c.utf8Size + byteLength cs :=
  rfl

@[simp] theorem byteLength_append (cs ds : List Char) :
    byteLength (cs ++ ds) = byteLength cs + byteLength ds := by
  induction cs with
  | nil => simp
  | cons c cs ih => simp [ih, Nat.add_assoc]

theorem byteLength_pos_iff {cs : List Char} : 0 < byteLength cs ↔ cs ≠ [] := by
  cases cs with
  | nil => simp
  | cons c cs =>
    have hsize : 0 < c.utf8Size := c.utf8Size_pos
    rw [byteLength_cons]
    exact ⟨fun _ ↦ List.cons_ne_nil c cs, fun _ ↦ by omega⟩

/-- Two occurrences of the mark, with something between them. -/
def EnclosesSomething (mark : Char) (cs : List Char) : Prop :=
  ∃ before inner after, inner ≠ [] ∧ cs = before ++ mark :: (inner ++ mark :: after)

/-! ## Where the outermost occurrences are -/

/-- No occurrence stands before the first one. -/
theorem firstOffset?_le (mark : Char) (before after : List Char) :
    ∃ offset, firstOffset? mark (before ++ mark :: after) = some offset ∧
      offset ≤ byteLength before := by
  induction before with
  | nil => exact ⟨0, if_pos rfl, Nat.le_refl 0⟩
  | cons c before ih =>
    obtain ⟨offset, hoffset, hle⟩ := ih
    rw [List.cons_append, firstOffset?, byteLength_cons]
    by_cases hc : c = mark
    · exact ⟨0, if_pos hc, Nat.zero_le _⟩
    · refine ⟨c.utf8Size + offset, ?_, by omega⟩
      rw [if_neg hc, hoffset]
      rfl

/-- No occurrence stands behind the last one. -/
theorem le_lastOffset? (mark : Char) (before after : List Char) :
    ∃ offset, lastOffset? mark (before ++ mark :: after) = some offset ∧
      byteLength before ≤ offset := by
  induction before with
  | nil =>
    rw [List.nil_append, lastOffset?]
    cases lastOffset? mark after with
    | some offset => exact ⟨mark.utf8Size + offset, rfl, Nat.zero_le _⟩
    | none => exact ⟨0, if_pos rfl, Nat.le_refl 0⟩
  | cons c before ih =>
    obtain ⟨offset, hoffset, hle⟩ := ih
    refine ⟨c.utf8Size + offset, ?_, ?_⟩
    · rw [List.cons_append, lastOffset?, hoffset]
    · rw [byteLength_cons]
      omega

section

variable {mark : Char}

theorem eq_append_of_firstOffset? {cs : List Char} {offset : Nat}
    (h : firstOffset? mark cs = some offset) :
    ∃ before after, cs = before ++ mark :: after ∧ offset = byteLength before := by
  induction cs generalizing offset with
  | nil => cases h
  | cons c cs ih =>
    rw [firstOffset?] at h
    split at h
    · rename_i hc
      cases h
      exact ⟨[], cs, by rw [hc, List.nil_append], rfl⟩
    · obtain ⟨rest, hrest, rfl⟩ := Option.map_eq_some_iff.mp h
      obtain ⟨before, after, rfl, rfl⟩ := ih hrest
      exact ⟨c :: before, after, rfl, (byteLength_cons c before).symm⟩

theorem eq_append_of_lastOffset? {cs : List Char} {offset : Nat}
    (h : lastOffset? mark cs = some offset) :
    ∃ before after, cs = before ++ mark :: after ∧ offset = byteLength before := by
  induction cs generalizing offset with
  | nil => cases h
  | cons c cs ih =>
    rw [lastOffset?] at h
    cases hrest : lastOffset? mark cs with
    | some rest =>
      rw [hrest] at h
      cases h
      obtain ⟨before, after, rfl, rfl⟩ := ih hrest
      exact ⟨c :: before, after, rfl, (byteLength_cons c before).symm⟩
    | none =>
      rw [hrest] at h
      obtain ⟨hc, hoffset⟩ := Option.ite_none_right_eq_some.mp h
      cases hoffset
      exact ⟨[], cs, by rw [hc, List.nil_append], rfl⟩

/-! ## What their distance tells -/

/-- The offsets of two occurrences are at least two bytes apart only if something stands between
them. -/
theorem enclosesSomething_of_offsets (hsize : mark.utf8Size = 1)
    {before rest earlier after : List Char}
    (heq : before ++ mark :: rest = earlier ++ mark :: after)
    (hoffsets : byteLength before + 2 ≤ byteLength earlier) :
    EnclosesSomething mark (before ++ mark :: rest) := by
  rcases List.append_eq_append_iff.mp heq with ⟨gap, rfl, hgap⟩ | ⟨gap, rfl, -⟩
  · cases gap with
    | nil =>
      rw [List.append_nil] at hoffsets
      omega
    | cons c inner =>
      rw [List.cons_append] at hgap
      obtain ⟨rfl, rfl⟩ := List.cons.inj hgap
      rw [byteLength_append, byteLength_cons, hsize] at hoffsets
      have hinner : 0 < byteLength inner := by omega
      exact ⟨before, inner, after, byteLength_pos_iff.mp hinner, rfl⟩
  · rw [byteLength_append] at hoffsets
    omega

theorem encloses_iff (hsize : mark.utf8Size = 1) (cs : List Char) :
    encloses mark cs ↔ EnclosesSomething mark cs := by
  constructor
  · intro h
    unfold encloses at h
    cases hfirst : firstOffset? mark cs with
    | none => simp [hfirst] at h
    | some first =>
      cases hlast : lastOffset? mark cs with
      | none => simp [hfirst, hlast] at h
      | some last =>
        have hoffsets : first + 2 ≤ last := by simpa [hfirst, hlast] using h
        obtain ⟨before, rest, rfl, rfl⟩ := eq_append_of_firstOffset? hfirst
        obtain ⟨earlier, after, heq, rfl⟩ := eq_append_of_lastOffset? hlast
        exact enclosesSomething_of_offsets hsize heq hoffsets
  · rintro ⟨before, inner, after, hinner, rfl⟩
    obtain ⟨first, hfirst, hle⟩ := firstOffset?_le mark before (inner ++ mark :: after)
    obtain ⟨last, hlast, hge⟩ := le_lastOffset? mark (before ++ mark :: inner) after
    rw [List.append_assoc, List.cons_append] at hlast
    rw [byteLength_append, byteLength_cons, hsize] at hge
    have hpositive : 0 < byteLength inner := byteLength_pos_iff.mpr hinner
    rw [encloses, hfirst, hlast]
    simp only [decide_eq_true_eq]
    omega

end

theorem utf8Size_of_mem_quoteMarks {mark : Char} (hmark : mark ∈ quoteMarks) :
    mark.utf8Size = 1 := by
  have hsizes : quoteMarks.all fun mark ↦ mark.utf8Size == 1 := by decide
  exact eq_of_beq (List.all_eq_true.mp hsizes mark hmark)

theorem hasQuotedFragment_iff (cs : List Char) :
    hasQuotedFragment cs ↔ ∃ mark ∈ quoteMarks, EnclosesSomething mark cs := by
  rw [hasQuotedFragment, List.any_eq_true]
  refine exists_congr fun mark ↦ and_congr_right fun hmark ↦ ?_
  exact encloses_iff (utf8Size_of_mem_quoteMarks hmark) cs

theorem hasQuotedFragment_of_enclosed {mark : Char} (hmark : mark ∈ quoteMarks)
    {inner : List Char} (hinner : inner ≠ []) :
    hasQuotedFragment (mark :: inner ++ [mark]) :=
  (hasQuotedFragment_iff _).mpr ⟨mark, hmark, [], inner, [], hinner, rfl⟩

/-! ## Texts around and between the marks -/

/-- The marks of a text in their places, whatever the other characters are. -/
def markPattern (cs : List Char) : List (Option Char) :=
  cs.map fun c ↦ if c ∈ quoteMarks then some c else none

/-- An occurrence of a mark is found at the same place in each text of the pattern. -/
theorem eq_append_of_markPattern_eq {mark : Char} {before after cs : List Char}
    (hmark : mark ∈ quoteMarks)
    (h : markPattern cs = markPattern (before ++ mark :: after)) :
    ∃ before' after', cs = before' ++ mark :: after' ∧
      markPattern before' = markPattern before ∧ markPattern after' = markPattern after := by
  rw [markPattern, markPattern, List.map_append, List.map_cons, if_pos hmark] at h
  obtain ⟨before', rest, rfl, hbefore, hrest⟩ := List.map_eq_append_iff.mp h
  obtain ⟨c, after', rfl, hc, hafter⟩ := List.map_eq_cons_iff.mp hrest
  obtain ⟨-, hsame⟩ := Option.ite_none_right_eq_some.mp hc
  rw [Option.some.inj hsame]
  exact ⟨before', after', rfl, hbefore, hafter⟩

theorem EnclosesSomething.of_markPattern_eq {mark : Char} {cs ds : List Char}
    (hmark : mark ∈ quoteMarks) (h : EnclosesSomething mark cs)
    (hpattern : markPattern ds = markPattern cs) : EnclosesSomething mark ds := by
  obtain ⟨before, inner, after, hinner, rfl⟩ := h
  obtain ⟨before', rest, rfl, -, hrest⟩ := eq_append_of_markPattern_eq hmark hpattern
  obtain ⟨inner', after', rfl, hinner', -⟩ := eq_append_of_markPattern_eq hmark hrest
  refine ⟨before', inner', after', ?_, rfl⟩
  rintro rfl
  exact hinner (List.map_eq_nil_iff.mp hinner'.symm)

theorem EnclosesSomething.surrounded {mark : Char} {cs : List Char}
    (h : EnclosesSomething mark cs) (before after : List Char) :
    EnclosesSomething mark (before ++ cs ++ after) := by
  obtain ⟨earlier, inner, later, hinner, rfl⟩ := h
  exact ⟨before ++ earlier, inner, later ++ after, hinner, by simp⟩

theorem hasQuotedFragment_of_markPattern_eq {cs ds : List Char}
    (hpattern : markPattern ds = markPattern cs) (h : hasQuotedFragment cs) :
    hasQuotedFragment ds := by
  obtain ⟨mark, hmark, hencloses⟩ := (hasQuotedFragment_iff cs).mp h
  exact (hasQuotedFragment_iff ds).mpr ⟨mark, hmark, hencloses.of_markPattern_eq hmark hpattern⟩

/-- A fragment is found exactly if some mark occurs twice with something in between. What is put
around the text does not hide it, and other characters in the places of those that are no marks
make no difference, however many bytes they take. -/
theorem quoted_fragments_are_found_exactly (text : String) :
    (hasQuotedFragment text.toList ↔
      ∃ mark ∈ quoteMarks, ∃ before inner after : String, inner ≠ "" ∧
        text = before ++ String.singleton mark ++ inner ++ String.singleton mark ++ after) ∧
    (hasQuotedFragment text.toList →
      ∀ before after : String, hasQuotedFragment (before ++ text ++ after).toList) ∧
    ∀ other : String, markPattern text.toList = markPattern other.toList →
      hasQuotedFragment text.toList = hasQuotedFragment other.toList := by
  refine ⟨?_, ?_, ?_⟩
  · rw [hasQuotedFragment_iff]
    refine exists_congr fun mark ↦ and_congr_right fun _ ↦ ⟨?_, ?_⟩
    · rintro ⟨before, inner, after, hinner, htext⟩
      refine ⟨.ofList before, .ofList inner, .ofList after, by simpa using hinner, ?_⟩
      rw [← String.toList_inj, htext]
      simp
    · rintro ⟨before, inner, after, hinner, rfl⟩
      exact ⟨before.toList, inner.toList, after.toList, by simpa using hinner, by simp⟩
  · intro h before after
    obtain ⟨mark, hmark, hencloses⟩ := (hasQuotedFragment_iff _).mp h
    refine (hasQuotedFragment_iff _).mpr ⟨mark, hmark, ?_⟩
    rw [String.toList_append, String.toList_append]
    exact hencloses.surrounded before.toList after.toList
  · intro other hpattern
    exact Bool.eq_iff_iff.mpr ⟨hasQuotedFragment_of_markPattern_eq hpattern.symm,
      hasQuotedFragment_of_markPattern_eq hpattern⟩

/-- Between the marks one character of four bytes, and in its place one of a single byte. -/
theorem quoted_fragments_are_found_exactly_around_wide_character :
    hasQuotedFragment "é\x60𝄞\x60".toList ∧
      hasQuotedFragment ("it's " ++ "é\x60𝄞\x60" ++ "\x22").toList ∧
      markPattern "é\x60𝄞\x60".toList = markPattern "-\x60a\x60".toList ∧
      hasQuotedFragment "é\x60𝄞\x60".toList = hasQuotedFragment "-\x60a\x60".toList ∧
      hasQuotedFragment "𝄞\x60\x60é\x22𝄞'".toList = false := by
  obtain ⟨hfound, hsurrounded, hpattern⟩ := quoted_fragments_are_found_exactly "é\x60𝄞\x60"
  have hfragment : hasQuotedFragment "é\x60𝄞\x60".toList :=
    hfound.mpr ⟨'\x60', by decide, "é", "𝄞", "", by decide, by decide⟩
  have hsame : markPattern "é\x60𝄞\x60".toList = markPattern "-\x60a\x60".toList := by decide
  exact ⟨hfragment, hsurrounded hfragment _ _, hsame, hpattern _ hsame, by decide⟩

end SqlSelect.Text
