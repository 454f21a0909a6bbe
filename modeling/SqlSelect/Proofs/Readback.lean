import SqlSelect.Proofs.Delimiters

/-!
# Reading documents back

Two documents are alike if they are written alike and hold related literals. From
documents that are alike the same word, name or literal can be taken off at the
front, and what is left of them is alike again.
-/

namespace SqlSelect

namespace Document

/-- Written alike behind the parameters bound before, with related literals in order. -/
def Alike (related : Value → Value → Bool) (placeholder : Placeholder) (bound : Nat)
    (first second : Document) : Prop :=
  write placeholder bound first = write placeholder bound second ∧
    (literals first).isEqv (literals second) related

namespace Alike

variable {related : Value → Value → Bool} {placeholder : Placeholder} {bound : Nat}
variable {first second rest other : Document}

theorem of_fixed {text : String}
    (h : Alike related placeholder bound (fixed text ++ rest) (fixed text ++ other)) :
    Alike related placeholder bound rest other := by
  obtain ⟨hwrite, hliterals⟩ := h
  simp only [write_append, write_fixed, literals_append, literals_fixed, List.length_nil,
    Nat.add_zero, List.nil_append] at hwrite hliterals
  exact ⟨(String.append_right_inj text).mp hwrite, hliterals⟩

theorem of_literal {value otherValue : Value}
    (h : Alike related placeholder bound (literal value ++ rest) (literal otherValue ++ other)) :
    related value otherValue ∧ Alike related placeholder (bound + 1) rest other := by
  obtain ⟨hwrite, hliterals⟩ := h
  simp only [write_append, write_literal, literals_append, literals_literal, List.length_singleton,
    List.singleton_append] at hwrite hliterals
  rw [List.isEqv, Bool.and_eq_true] at hliterals
  exact ⟨hliterals.1, (String.append_right_inj _).mp hwrite, hliterals.2⟩

/-- No word of a code starts another, so which of them stands first can be told. -/
theorem of_code {word : Type} {code : word → String}
    (hcode : ∀ one two, (code one).toList <+: (code two).toList → one = two) {one two : word}
    (h : Alike related placeholder bound (fixed (code one) ++ rest) (fixed (code two) ++ other)) :
    one = two ∧ Alike related placeholder bound rest other := by
  have hwrite : (code one).toList ++ (write placeholder bound rest).toList =
      (code two).toList ++ (write placeholder bound other).toList := by
    simpa using congrArg String.toList h.1
  have hone : (code one).toList <+: (code two).toList ++ (write placeholder bound other).toList :=
    ⟨_, hwrite⟩
  have heq : one = two := by
    rcases List.prefix_or_prefix_of_prefix hone (List.prefix_append _ _) with hprefix | hprefix
    · exact hcode one two hprefix
    · exact (hcode two one hprefix).symm
  subst heq
  exact ⟨rfl, h.of_fixed⟩

/-- Documents whose texts start differently are not alike. -/
theorem false_of_ne {text otherText : String} {c d : Char} {cs ds : List Char}
    (htext : text.toList = c :: cs) (hotherText : otherText.toList = d :: ds) (hne : c ≠ d)
    (h : Alike related placeholder bound (fixed text ++ rest) (fixed otherText ++ other)) :
    False := by
  have hwrite := congrArg String.toList h.1
  simp only [write_append, write_fixed, String.toList_append, htext, hotherText,
    List.cons_append, List.cons.injEq] at hwrite
  exact hne hwrite.1

/-- Closing both documents keeps them alike. -/
theorem append_fixed (text : String) (h : Alike related placeholder bound first second) :
    Alike related placeholder bound (first ++ fixed text) (second ++ fixed text) := by
  obtain ⟨hwrite, hliterals⟩ := h
  constructor
  · simp only [write_append, write_fixed, hwrite]
  · simpa using hliterals

theorem fixed_append (text : String) (h : Alike related placeholder bound first second) :
    Alike related placeholder bound (fixed text ++ first) (fixed text ++ second) := by
  obtain ⟨hwrite, hliterals⟩ := h
  constructor
  · simp [hwrite]
  · simpa using hliterals

end Alike

end Document

/-! ## Reading names -/

/-- What stands before the first occurrence of a mark is determined by the whole. -/
theorem append_mark_cancel {mark : Char} {before other cs ds : List Char} (hbefore : mark ∉ before)
    (hother : mark ∉ other) (h : before ++ mark :: cs = other ++ mark :: ds) :
    before = other ∧ cs = ds := by
  induction before generalizing other with
  | nil =>
    cases other with
    | nil => exact ⟨rfl, (List.cons.inj h).2⟩
    | cons d other => exact absurd ((List.cons.inj h).1 ▸ List.mem_cons_self) hother
  | cons c before ih =>
    rw [List.mem_cons, not_or] at hbefore
    cases other with
    | nil => exact absurd (List.cons.inj h).1.symm hbefore.1
    | cons d other =>
      rw [List.mem_cons, not_or] at hother
      obtain ⟨hhead, htail⟩ := List.cons.inj h
      obtain ⟨hsame, hrest⟩ := ih hbefore.2 hother.2 htail
      exact ⟨by rw [hhead, hsame], hrest⟩

/-- The segments of a name, each quoted and after a dot. -/
def dotted (quote : Char) (segments : List (List Char)) : List Char :=
  segments.flatMap fun segment ↦ '.' :: quote :: (segment ++ [quote])

theorem dotted_cons (quote : Char) (segment : List Char) (segments : List (List Char)) :
    dotted quote (segment :: segments) =
      '.' :: quote :: (segment ++ quote :: dotted quote segments) := by
  simp [dotted]

theorem dotted_cons_append (quote : Char) (segment : List Char) (segments : List (List Char))
    (cs : List Char) :
    dotted quote (segment :: segments) ++ cs =
      '.' :: quote :: (segment ++ quote :: (dotted quote segments ++ cs)) := by
  simp [dotted_cons]

/-- Behind the last segment stands no dot, so where a name ends can be told. -/
theorem dotted_cancel {quote stop : Char} (hstop : stop ≠ '.') {segments others : List (List Char)}
    {cs ds : List Char} (hsegments : ∀ segment ∈ segments, quote ∉ segment)
    (hothers : ∀ segment ∈ others, quote ∉ segment)
    (h : dotted quote segments ++ stop :: cs = dotted quote others ++ stop :: ds) :
    segments = others ∧ cs = ds := by
  induction segments generalizing others with
  | nil =>
    cases others with
    | nil => exact ⟨rfl, (List.cons.inj h).2⟩
    | cons other others => exact absurd (List.cons.inj h).1 hstop
  | cons segment segments ih =>
    cases others with
    | nil => exact absurd (List.cons.inj h).1.symm hstop
    | cons other others =>
      rw [dotted_cons_append, dotted_cons_append] at h
      have hquoted := (List.cons.inj (List.cons.inj h).2).2
      obtain ⟨hsame, hrest⟩ := append_mark_cancel (hsegments segment List.mem_cons_self)
        (hothers other List.mem_cons_self) hquoted
      obtain ⟨hsegments, hcs⟩ := ih
        (fun segment hmem ↦ hsegments segment (List.mem_cons_of_mem _ hmem))
        (fun segment hmem ↦ hothers segment (List.mem_cons_of_mem _ hmem)) hrest
      exact ⟨by rw [hsame, hsegments], hcs⟩

/-- An unquoted name is written with all of its segments quoted. -/
theorem toList_identifier {quote : Char} {name : String} (h : Unquoted name.toList) :
    '.' :: ((Quoting.marked (String.singleton quote)).apply name).toList =
      dotted quote (Identifier.segments name.toList) := by
  rw [Quoting.toList_apply _ h]
  simp [Quoting.mark, dotted]

theorem Identifier.exists_segments_eq_cons (name : List Char) :
    ∃ first others, segments name = first :: others :=
  List.exists_cons_of_ne_nil (List.splitOn_ne_nil '.' name)

/-- No dot stands before the first segment. -/
theorem toList_identifier_of_segments {quote : Char} {name : String} (h : Unquoted name.toList)
    {first : List Char} {others : List (List Char)}
    (hsegments : Identifier.segments name.toList = first :: others) :
    ((Quoting.marked (String.singleton quote)).apply name).toList =
      quote :: (first ++ quote :: dotted quote others) := by
  have hdotted : '.' :: ((Quoting.marked (String.singleton quote)).apply name).toList =
      dotted quote (Identifier.segments name.toList) := toList_identifier h
  rw [hsegments, dotted_cons] at hdotted
  exact (List.cons.inj hdotted).2

theorem segments_injective {name other : String}
    (h : Identifier.segments name.toList = Identifier.segments other.toList) : name = other := by
  have hjoin : ∀ cs, ['.'].intercalate (Identifier.segments cs) = cs :=
    fun cs ↦ List.intercalate_splitOn '.'
  rw [← String.toList_inj, ← hjoin name.toList, h, hjoin]

/-- A name in quotes is read off a text as long as a blank stands behind it. -/
theorem Document.Alike.of_identifier {related : Value → Value → Bool} {placeholder : Placeholder}
    {bound : Nat} {quote : Char} (hquote : quote ∈ Text.quoteMarks) {name otherName : String}
    (hname : Unquoted name.toList) (hother : Unquoted otherName.toList) {rest other : Document}
    (h : Alike related placeholder bound
      (fixed ((Quoting.marked (String.singleton quote)).apply name) ++ (fixed " " ++ rest))
      (fixed ((Quoting.marked (String.singleton quote)).apply otherName) ++
        (fixed " " ++ other))) :
    name = otherName ∧ Alike related placeholder bound rest other := by
  have hblank : " ".toList = [' '] := rfl
  have hwrite := congrArg (fun text ↦ '.' :: String.toList text) h.1
  simp only [write_append, write_fixed, String.toList_append, ← List.cons_append, hblank,
    toList_identifier hname, toList_identifier hother] at hwrite
  obtain ⟨hsegments, -⟩ := dotted_cancel (by decide)
    (fun segment hsegment ↦ hname.segment hsegment quote hquote)
    (fun segment hsegment ↦ hother.segment hsegment quote hquote) hwrite
  obtain rfl := segments_injective hsegments
  exact ⟨rfl, h.of_fixed.of_fixed⟩

end SqlSelect
