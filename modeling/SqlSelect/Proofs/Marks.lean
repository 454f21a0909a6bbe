import SqlSelect.Proofs.Delimiters

/-!
# Reading the placeholders off a text

A reader looks for question marks, or for dollar signs with the digits after them. It
finds the placeholders and nothing else if the text around them holds no such mark and
no digit stands directly after a placeholder.
-/

namespace SqlSelect

open Document

/-! ## The reader -/

namespace Text

/-- The digits after each dollar sign, as many as there are. -/
def dollarNumbers : List Char → List (List Char)
  | [] => []
  | c :: cs => if c = '$' then cs.takeWhile Char.isDigit :: dollarNumbers cs else dollarNumbers cs

/-- Free of the characters that start a placeholder. -/
def Unmarked (text : String) : Prop :=
  '?' ∉ text.toList ∧ '$' ∉ text.toList

instance (text : String) : Decidable (Unmarked text) :=
  inferInstanceAs (Decidable (_ ∧ _))

/-- Unmarked, and put after a number it leaves the number as it is. -/
structure Separates (text : String) : Prop where
  unmarked : Unmarked text
  head_not_digit : text.toList.head?.any fun c ↦ !c.isDigit

instance (text : String) : Decidable (Separates text) :=
  decidable_of_iff (Unmarked text ∧ text.toList.head?.any fun c ↦ !c.isDigit)
    ⟨fun h ↦ ⟨h.1, h.2⟩, fun h ↦ ⟨h.1, h.2⟩⟩

theorem Unmarked.append {first second : String} (h : Unmarked first) (hsecond : Unmarked second) :
    Unmarked (first ++ second) := by
  unfold Unmarked
  rw [String.toList_append, List.mem_append, List.mem_append, not_or, not_or]
  exact ⟨⟨h.1, hsecond.1⟩, h.2, hsecond.2⟩

theorem Separates.append {first second : String} (h : Separates first)
    (hsecond : Unmarked second) : Separates (first ++ second) := by
  refine ⟨h.unmarked.append hsecond, ?_⟩
  have hhead := h.head_not_digit
  rw [String.toList_append]
  cases hfirst : first.toList with
  | nil => simp [hfirst] at hhead
  | cons c cs => simpa [hfirst] using hhead

theorem unmarked_of_isDigit {text : String} (h : ∀ c ∈ text.toList, c.isDigit) : Unmarked text := by
  constructor <;>
  · intro hmem
    exact absurd (h _ hmem) (by decide)

theorem isDigit_of_mem_toString {number : Nat} {c : Char} (h : c ∈ (toString number).toList) :
    c.isDigit := by
  have hdigits : c ∈ Nat.toDigits 10 number := by simpa using h
  exact Nat.isDigit_of_mem_toDigits (by decide) (by decide) hdigits

theorem dollarNumbers_append {cs : List Char} (h : '$' ∉ cs) (ds : List Char) :
    dollarNumbers (cs ++ ds) = dollarNumbers ds := by
  induction cs with
  | nil => rfl
  | cons c cs ih =>
    rw [List.mem_cons, not_or] at h
    rw [List.cons_append, dollarNumbers, if_neg (Ne.symm h.1), ih h.2]

theorem length_dollarNumbers (cs : List Char) : (dollarNumbers cs).length = cs.count '$' := by
  induction cs with
  | nil => rfl
  | cons c cs ih =>
    rw [dollarNumbers, List.count_cons]
    split <;> simp_all

end Text

/-! ## Legible documents -/

namespace Document

def startsWithDigit : Document → Bool
  | [] => false
  | .fixed text :: rest =>
    match text.toList with
    | [] => startsWithDigit rest
    | c :: _ => c.isDigit
  | .literal _ :: _ => false

/-- The fixed text holds no mark of a placeholder, and no digit stands directly after a literal. -/
def Legible : Document → Prop
  | [] => True
  | .fixed text :: rest => Text.Unmarked text ∧ Legible rest
  | .literal _ :: rest => startsWithDigit rest = false ∧ Legible rest

/-- A document that can stand after any other. -/
structure Trails (document : Document) : Prop where
  legible : Legible document
  starts : startsWithDigit document = false

theorem startsWithDigit_append {first second : Document} (h : startsWithDigit first = false)
    (hsecond : startsWithDigit second = false) : startsWithDigit (first ++ second) = false := by
  induction first with
  | nil => exact hsecond
  | cons chunk rest ih =>
    cases chunk with
    | literal value => rfl
    | fixed text =>
      rw [List.cons_append, startsWithDigit] at *
      split
      · simp_all
      · simp_all

namespace Legible

variable {first second document : Document} {text : String}

theorem nil : Legible [] :=
  trivial

theorem fixed (h : Text.Unmarked text) : Legible (Document.fixed text) :=
  ⟨h, trivial⟩

theorem literal (value : Value) : Legible (Document.literal value) :=
  ⟨rfl, trivial⟩

theorem append (h : Legible first) (hsecond : Trails second) : Legible (first ++ second) := by
  induction first with
  | nil => exact hsecond.legible
  | cons chunk rest ih =>
    cases chunk with
    | fixed text => exact ⟨h.1, ih h.2⟩
    | literal value => exact ⟨startsWithDigit_append h.1 hsecond.starts, ih h.2⟩

/-- Anything can stand after fixed text. -/
theorem lead (h : Text.Unmarked text) (hdocument : Legible document) :
    Legible (Document.fixed text ++ document) :=
  ⟨h, hdocument⟩

end Legible

namespace Trails

variable {first second document : Document} {text : String}

theorem nil : Trails [] :=
  ⟨trivial, rfl⟩

theorem append (h : Trails first) (hsecond : Trails second) : Trails (first ++ second) :=
  ⟨h.legible.append hsecond, startsWithDigit_append h.starts hsecond.starts⟩

theorem lead (h : Text.Separates text) (hdocument : Legible document) :
    Trails (Document.fixed text ++ document) := by
  refine ⟨.lead h.unmarked hdocument, ?_⟩
  have hhead := h.head_not_digit
  change startsWithDigit (.fixed text :: document) = false
  rw [startsWithDigit]
  cases htext : text.toList with
  | nil => simp [htext] at hhead
  | cons c cs => simpa [htext] using hhead

theorem fixed (h : Text.Separates text) : Trails (Document.fixed text) :=
  lead h .nil

theorem flatten {documents : List Document} (h : ∀ document ∈ documents, Trails document) :
    Trails documents.flatten := by
  induction documents with
  | nil => exact nil
  | cons first rest ih =>
    rw [List.forall_mem_cons] at h
    exact h.1.append (ih h.2)

end Trails

namespace Legible

variable {first second document : Document} {separator : String}

/-- Two documents with a separator between them. -/
theorem between (h : Legible first) (hseparator : Text.Separates separator)
    (hsecond : Legible second) : Legible (first ++ Document.fixed separator ++ second) := by
  rw [List.append_assoc]
  exact h.append (.lead hseparator hsecond)

theorem enclosed (h : Legible document) : Legible (Reference.enclosed document) := by
  unfold Reference.enclosed
  exact (lead (by decide) h).append (.fixed (by decide))

theorem separated (hseparator : Text.Separates separator) {documents : List Document}
    (h : ∀ document ∈ documents, Legible document) :
    Legible (Document.separated separator documents) := by
  induction documents with
  | nil => exact .nil
  | cons first rest ih =>
    rw [List.forall_mem_cons] at h
    cases rest with
    | nil => simpa using h.1
    | cons second rest =>
      rw [separated_cons_cons]
      exact h.1.between hseparator (ih h.2)

end Legible

/-! ## Reading a document that was written -/

variable {document : Document}

/-- A mark that no placeholder of the style has does not occur. -/
theorem not_mem_write (placeholder : Placeholder) {mark : Char} (hmark : mark = '?' ∨ mark = '$')
    (htoken : ∀ position, mark ∉ (placeholder.token position).toList) (h : Legible document)
    (bound : Nat) : mark ∉ (write placeholder bound document).toList := by
  induction document generalizing bound with
  | nil => simp
  | cons chunk rest ih =>
    cases chunk with
    | fixed text =>
      have hfixed : mark ∉ text.toList := by
        rcases hmark with rfl | rfl
        · exact h.1.1
        · exact h.1.2
      rw [write, String.toList_append, List.mem_append, not_or]
      exact ⟨hfixed, ih h.2 bound⟩
    | literal value =>
      rw [write, String.toList_append, List.mem_append, not_or]
      exact ⟨htoken (bound + 1), ih h.2 (bound + 1)⟩

theorem count_questionMark_write (h : Legible document) (bound : Nat) :
    (write .questionMark bound document).toList.count '?' = (literals document).length := by
  induction document generalizing bound with
  | nil => rfl
  | cons chunk rest ih =>
    cases chunk with
    | fixed text =>
      rw [write, String.toList_append, List.count_append, ih h.2,
        List.count_eq_zero_of_not_mem h.1.1, Nat.zero_add]
      rfl
    | literal value =>
      have htoken : (Placeholder.questionMark.token (bound + 1)).toList.count '?' = 1 := by
        rw [Placeholder.token]
        decide
      rw [write, String.toList_append, List.count_append, ih h.2, htoken, Nat.add_comm]
      rfl

theorem takeWhile_isDigit_write (h : startsWithDigit document = false) (bound : Nat) :
    (write .dollarNumbered bound document).toList.takeWhile Char.isDigit = [] := by
  induction document with
  | nil => rfl
  | cons chunk rest ih =>
    cases chunk with
    | fixed text =>
      rw [startsWithDigit] at h
      rw [write, String.toList_append]
      cases htext : text.toList with
      | nil =>
        rw [htext] at h
        exact ih h
      | cons c cs =>
        rw [htext] at h
        rw [List.cons_append, List.takeWhile_cons_of_neg]
        simpa using h
    | literal value => simp [write, Placeholder.token]

/-- The numbers that are read are those that were written. -/
theorem dollarNumbers_write (h : Legible document) (bound : Nat) :
    Text.dollarNumbers (write .dollarNumbered bound document).toList =
      (List.range' (bound + 1) (literals document).length).map fun position ↦
        (toString position).toList := by
  induction document generalizing bound with
  | nil => rfl
  | cons chunk rest ih =>
    cases chunk with
    | fixed text =>
      rw [write, String.toList_append, Text.dollarNumbers_append h.1.2, ih h.2]
      rfl
    | literal value =>
      let digits := (toString (bound + 1)).toList
      have hdigits : ∀ c ∈ digits, c.isDigit := fun c hc ↦ Text.isDigit_of_mem_toString hc
      have htext : (write .dollarNumbered bound (.literal value :: rest)).toList =
          '$' :: (digits ++ (write .dollarNumbered (bound + 1) rest).toList) := by
        simp [write, Placeholder.token, digits]
      rw [htext, Text.dollarNumbers, if_pos rfl, List.takeWhile_append_of_pos hdigits,
        takeWhile_isDigit_write h.1, List.append_nil,
        Text.dollarNumbers_append (Text.unmarked_of_isDigit hdigits).2, ih h.2]
      rfl

end Document

end SqlSelect
