import SqlSelect.Proofs.Enclosure
import SqlSelect.Proofs.Policy
import SqlSelect.Proofs.Refinement
import SqlSelect.Proofs.Scanner

/-!
# Names and keys stay inside their delimiters

If names contain no quote and the fragments that are taken as they are close what
they open, then so does the whole statement. A JSON key may be any string, since
its quotes are doubled.
-/

namespace SqlSelect

open Document

/-! ## Fixed words -/

def isPlain (c : Char) : Bool :=
  !(Text.quoteMarks ++ ['(', ')']).contains c

/-- The quotes that are not taken by string literals. -/
def identifierQuotes : List Char :=
  ['\x60', '\x22']

theorem mem_quoteMarks {quote : Char} (hquote : quote ∈ identifierQuotes) :
    quote ∈ Text.quoteMarks :=
  have hmarks : identifierQuotes ⊆ Text.quoteMarks := by decide
  hmarks hquote

theorem plain_of_isPlain {quote : Char} (hquote : quote ∈ identifierQuotes) {c : Char}
    (h : isPlain c) : Plain quote c := by
  have hcontains : c ∉ Text.quoteMarks ++ ['(', ')'] := by simpa [isPlain] using h
  rw [List.mem_append, not_or] at hcontains
  obtain ⟨hmark, hparenthesis⟩ := hcontains
  refine ⟨?_, ?_, ?_, ?_⟩
  · rintro rfl
    exact hmark (mem_quoteMarks hquote)
  · rintro rfl
    exact hmark (by decide)
  · rintro rfl
    exact hparenthesis (by decide)
  · rintro rfl
    exact hparenthesis (by decide)

theorem isPlain_of_isDigit {c : Char} (h : c.isDigit) : isPlain c := by
  have hmarks : (Text.quoteMarks ++ ['(', ')']).all fun mark ↦ !mark.isDigit := by decide
  cases hplain : isPlain c with
  | true => rfl
  | false =>
    have hmember : c ∈ Text.quoteMarks ++ ['(', ')'] := by
      rw [isPlain, Bool.not_eq_false'] at hplain
      exact List.contains_iff_mem.mp hplain
    have hdigit := List.all_eq_true.mp hmarks c hmember
    rw [h] at hdigit
    cases hdigit

section

variable {quote : Char} (hquote : quote ∈ identifierQuotes)
include hquote

/-- A word that is plain by inspection. -/
theorem SelfContained.word {text : String} (h : text.toList.all isPlain) :
    SelfContained quote text :=
  scan_plain fun c hc ↦ plain_of_isPlain hquote (List.all_eq_true.mp h c hc)

theorem SelfContained.number (number : Nat) : SelfContained quote (toString number) := by
  apply word hquote
  rw [List.all_eq_true]
  intro c hc
  have hdigit : c ∈ Nat.toDigits 10 number := by simpa using hc
  exact isPlain_of_isDigit (Nat.isDigit_of_mem_toDigits (by decide) (by decide) hdigit)

theorem SelfContained.token (placeholder : Placeholder) (position : Nat) :
    SelfContained quote (placeholder.token position) := by
  cases placeholder with
  | questionMark =>
    rw [Placeholder.token]
    exact word hquote (by decide)
  | dollarNumbered =>
    rw [Placeholder.token]
    exact (word hquote (by decide)).append (number hquote position)

end

/-! ## Identifiers -/

def Unquoted (cs : List Char) : Prop :=
  ∀ mark ∈ Text.quoteMarks, mark ∉ cs

instance (cs : List Char) : Decidable (Unquoted cs) :=
  List.decidableBAll (fun mark ↦ mark ∉ cs) Text.quoteMarks

theorem Unquoted.hasQuotedFragment {cs : List Char} (h : Unquoted cs) :
    Text.hasQuotedFragment cs = false := by
  rw [Bool.eq_false_iff, Ne, Text.hasQuotedFragment_iff]
  rintro ⟨mark, hmark, before, inner, after, -, rfl⟩
  exact h mark hmark (List.mem_append_right before List.mem_cons_self)

theorem mem_intercalate_of_mem {separator : List Char} {segments : List (List Char)}
    {segment : List Char} (hsegment : segment ∈ segments) {c : Char} (hc : c ∈ segment) :
    c ∈ separator.intercalate segments := by
  induction segments with
  | nil => cases hsegment
  | cons first rest ih =>
    cases rest with
    | nil =>
      rw [List.intercalate_singleton, ← List.mem_singleton.mp hsegment]
      exact hc
    | cons second rest =>
      rw [List.intercalate_cons_cons, List.mem_append, List.mem_append]
      rcases List.mem_cons.mp hsegment with rfl | hrest
      · exact .inl (.inl hc)
      · exact .inr (ih hrest)

theorem mem_of_mem_doubleQuotes {cs : List Char} {c : Char} (h : c ∈ Text.doubleQuotes cs) :
    c ∈ cs := by
  obtain ⟨d, hd, hc⟩ := List.mem_flatMap.mp h
  split at hc <;> simp_all

/-- The segments of a name hold no other characters than the name. -/
theorem Unquoted.segment {name segment : List Char} (h : Unquoted name)
    (hsegment : segment ∈ Identifier.segments name) : Unquoted segment := by
  intro mark hmark hmem
  have hname : ['.'].intercalate (Identifier.segments name) = name := List.intercalate_splitOn '.'
  apply h mark hmark
  rw [← hname]
  exact mem_intercalate_of_mem hsegment hmem

theorem Unquoted.quoteSegment_eq {segment : List Char} (h : Unquoted segment)
    (quote : List Char) : Identifier.quoteSegment quote segment = quote ++ segment ++ quote := by
  rw [Identifier.quoteSegment, h.hasQuotedFragment]
  rfl

theorem cons_intercalate (separator : Char) {segments : List (List Char)} (h : segments ≠ []) :
    separator :: [separator].intercalate segments = segments.flatMap (separator :: ·) := by
  induction segments with
  | nil => exact absurd rfl h
  | cons first rest ih =>
    cases rest with
    | nil => simp
    | cons second rest =>
      rw [List.intercalate_cons_cons, List.flatMap_cons, ← ih (List.cons_ne_nil _ _)]
      simp

namespace Quoting

/-- What stands on both sides of a segment. -/
def mark : Quoting → List Char
  | bare => []
  | marked quote => quote.toList

/-- Each segment of an unquoted name is written between quotes of its own. -/
theorem toList_apply (quoting : Quoting) {name : String} (h : Unquoted name.toList) :
    '.' :: (quoting.apply name).toList = (Identifier.segments name.toList).flatMap fun segment ↦
      '.' :: (quoting.mark ++ segment ++ quoting.mark) := by
  have hpath : (quoting.apply name).toList = ['.'].intercalate
      ((Identifier.segments name.toList).map fun segment ↦
        quoting.mark ++ segment ++ quoting.mark) := by
    cases quoting with
    | bare =>
      have hjoined : ['.'].intercalate (Identifier.segments name.toList) = name.toList :=
        List.intercalate_splitOn '.'
      simpa [mark] using hjoined.symm
    | marked quote =>
      rw [toList_apply_marked, Identifier.quotePath]
      exact congrArg _ (List.map_congr_left fun segment hsegment ↦
        (h.segment hsegment).quoteSegment_eq quote.toList)
  have hne : Identifier.segments name.toList ≠ [] := List.splitOn_ne_nil '.' name.toList
  rw [hpath, cons_intercalate '.' (by simpa using hne), List.flatMap_map]

end Quoting

theorem scan_intercalate {quote : Char} {separator : List Char} {segments : List (List Char)}
    (hseparator : scan quote {} separator = some {})
    (h : ∀ segment ∈ segments, scan quote {} segment = some {}) :
    scan quote {} (separator.intercalate segments) = some {} := by
  induction segments with
  | nil => rfl
  | cons first rest ih =>
    cases rest with
    | nil => simpa using h first
    | cons second rest =>
      have hfirst := h first List.mem_cons_self
      rw [List.intercalate_cons_cons, List.append_assoc, scan_append _ hfirst,
        scan_append _ hseparator]
      exact ih fun segment hsegment ↦ h segment (List.mem_cons_of_mem first hsegment)

/-- Each segment of the name stands between quotes of its own. -/
theorem SelfContained.identifier {quote : Char} (hquote : quote ∈ identifierQuotes) {name : String}
    (h : Unquoted name.toList) :
    SelfContained quote ((Quoting.marked (String.singleton quote)).apply name) := by
  unfold SelfContained
  rw [Quoting.toList_apply_marked, String.toList_singleton]
  apply scan_intercalate
  · exact scan_plain fun c hc ↦ plain_of_isPlain hquote (List.mem_singleton.mp hc ▸ rfl)
  · intro quoted hquoted
    obtain ⟨segment, hsegment, rfl⟩ := List.mem_map.mp hquoted
    have hunquoted := h.segment hsegment
    rw [hunquoted.quoteSegment_eq]
    exact scan_quoted (hunquoted quote (mem_quoteMarks hquote)) 0

/-! ## Documents -/

/-- However the document is written, its text is self-contained. -/
def Document.Sealed (quote : Char) (document : Document) : Prop :=
  ∀ placeholder bound, SelfContained quote (write placeholder bound document)

namespace Document.Sealed

variable {quote : Char} {first second document : Document}

theorem nil : Sealed quote [] :=
  fun _ _ ↦ .empty

theorem fixed {text : String} (h : SelfContained quote text) :
    Sealed quote (Document.fixed text) := by
  intro placeholder bound
  rw [write_fixed]
  exact h

theorem append (hfirst : Sealed quote first) (hsecond : Sealed quote second) :
    Sealed quote (first ++ second) := by
  intro placeholder bound
  rw [write_append]
  exact (hfirst _ _).append (hsecond _ _)

theorem flatten {documents : List Document} (h : ∀ document ∈ documents, Sealed quote document) :
    Sealed quote documents.flatten := by
  induction documents with
  | nil => exact nil
  | cons first rest ih =>
    have hrest := ih fun document hdocument ↦ h document (List.mem_cons_of_mem first hdocument)
    exact (h first List.mem_cons_self).append hrest

theorem separated {separator : String} (hseparator : SelfContained quote separator)
    {documents : List Document} (h : ∀ document ∈ documents, Sealed quote document) :
    Sealed quote (Document.separated separator documents) := by
  induction documents with
  | nil => exact nil
  | cons first rest ih =>
    cases rest with
    | nil => simpa using h first
    | cons second rest =>
      have hrest := ih fun document hdocument ↦ h document (List.mem_cons_of_mem first hdocument)
      rw [separated_cons_cons]
      exact ((h first List.mem_cons_self).append (fixed hseparator)).append hrest

theorem literal (hquote : quote ∈ identifierQuotes) (value : Value) :
    Sealed quote (Document.literal value) := by
  intro placeholder bound
  rw [write_literal]
  exact .token hquote placeholder (bound + 1)

end Document.Sealed

/-- The document stands between parentheses that belong to each other. -/
def Document.Bracketed (quote : Char) (document : Document) : Prop :=
  ∃ inner, Sealed quote inner ∧ document = Reference.enclosed inner

section

variable {quote : Char} (hquote : quote ∈ identifierQuotes) {document : Document}
include hquote

theorem Document.Bracketed.write_enclosed (h : Bracketed quote document)
    (placeholder : Placeholder) (bound : Nat) :
    Enclosed quote (write placeholder bound document) := by
  obtain ⟨inner, hinner, rfl⟩ := h
  have hopen : quote ≠ '(' := by
    rintro rfl
    exact absurd hquote (by decide)
  have hclose : quote ≠ ')' := by
    rintro rfl
    exact absurd hquote (by decide)
  rw [Reference.write_enclosed]
  exact Enclosed.parenthesized hopen hclose (hinner placeholder bound)

theorem Document.Bracketed.sealed (h : Bracketed quote document) : Sealed quote document :=
  fun placeholder bound ↦ (h.write_enclosed hquote placeholder bound).selfContained

theorem Document.Sealed.enclosed (h : Sealed quote document) :
    Sealed quote (Reference.enclosed document) :=
  Bracketed.sealed hquote ⟨document, h, rfl⟩

end

end SqlSelect
