import SqlSelect.Params

/-!
# Documents

A document is the text of a statement before parameters are numbered: fixed text
with the literals standing where they occur. Writing a document fills in the
placeholders, counted on from the parameters bound before.
-/

namespace SqlSelect

inductive Chunk where
  | fixed (text : String)
  | literal (value : Value)
deriving DecidableEq, Repr

abbrev Document := List Chunk

namespace Document

def fixed (text : String) : Document :=
  [.fixed text]

def literal (value : Value) : Document :=
  [.literal value]

/-- The text of a document whose first literal is the parameter after `bound` others. -/
def write (placeholder : Placeholder) : Nat → Document → String
  | _, [] => ""
  | bound, .fixed text :: rest => text ++ write placeholder bound rest
  | bound, .literal _ :: rest => placeholder.token (bound + 1) ++ write placeholder (bound + 1) rest

/-- The literals in the order in which they stand. -/
def literals : Document → List Value
  | [] => []
  | .fixed _ :: rest => literals rest
  | .literal value :: rest => value :: literals rest

/-- Whether nothing is written. A literal is always written, so it must have none. -/
def isBlank : Document → Bool
  | [] => true
  | .fixed text :: rest => text.isEmpty && isBlank rest
  | .literal _ :: _ => false

variable {placeholder : Placeholder} {bound : Nat}

@[simp] theorem write_nil : write placeholder bound [] = "" :=
  rfl

@[simp] theorem write_fixed (text : String) : write placeholder bound (fixed text) = text := by
  simp [fixed, write]

@[simp] theorem write_literal (value : Value) :
    write placeholder bound (literal value) = placeholder.token (bound + 1) := by
  simp [literal, write]

@[simp] theorem literals_nil : literals [] = [] :=
  rfl

@[simp] theorem literals_fixed (text : String) : literals (fixed text) = [] :=
  rfl

@[simp] theorem literals_literal (value : Value) : literals (literal value) = [value] :=
  rfl

@[simp] theorem literals_append (first second : Document) :
    literals (first ++ second) = literals first ++ literals second := by
  induction first with
  | nil => rfl
  | cons chunk rest ih => cases chunk <;> simp [literals, ih]

/-- What is written second counts on from the literals of what is written first. -/
@[simp] theorem write_append (first second : Document) :
    write placeholder bound (first ++ second) =
      write placeholder bound first ++
        write placeholder (bound + (literals first).length) second := by
  induction first generalizing bound with
  | nil => simp
  | cons chunk rest ih =>
    cases chunk with
    | fixed text => simp [write, literals, ih, String.append_assoc]
    | literal value =>
      have hcount : bound + 1 + (literals rest).length =
          bound + ((literals rest).length + 1) := by omega
      simp [write, literals, ih, String.append_assoc, hcount]

theorem token_ne_empty (placeholder : Placeholder) (position : Nat) :
    placeholder.token position ≠ "" := by
  cases placeholder with
  | questionMark => simp [Placeholder.token]
  | dollarNumbered => simp [Placeholder.token, ← String.toList_inj]

theorem isEmpty_write (placeholder : Placeholder) (bound : Nat) (document : Document) :
    (write placeholder bound document).isEmpty = isBlank document := by
  induction document generalizing bound with
  | nil => rfl
  | cons chunk rest ih =>
    cases chunk with
    | fixed text =>
      rw [isBlank, ← ih bound, write, Bool.eq_iff_iff]
      simp [String.append_eq_empty_iff]
    | literal value =>
      have htoken := token_ne_empty placeholder (bound + 1)
      simp [isBlank, write, htoken]

theorem literals_eq_nil_of_isBlank {document : Document} (h : isBlank document) :
    literals document = [] := by
  induction document with
  | nil => rfl
  | cons chunk rest ih =>
    cases chunk with
    | fixed text =>
      rw [isBlank, Bool.and_eq_true] at h
      exact ih h.2
    | literal value => simp [isBlank] at h

/-! ## Several documents -/

/-- Documents written one after the other, each counting on from those before it. -/
def writeAll (placeholder : Placeholder) : Nat → List Document → List String
  | _, [] => []
  | bound, first :: rest =>
    write placeholder bound first ::
      writeAll placeholder (bound + (literals first).length) rest

theorem literals_flatten (documents : List Document) :
    literals documents.flatten = documents.flatMap literals := by
  induction documents with
  | nil => rfl
  | cons first rest ih => simp [ih]

theorem write_flatten (documents : List Document) :
    write placeholder bound documents.flatten =
      String.join (writeAll placeholder bound documents) := by
  induction documents generalizing bound with
  | nil => simp [writeAll]
  | cons first rest ih => simp [writeAll, ih]

theorem writeAll_map_append (before : String) (documents : List Document) :
    writeAll placeholder bound (documents.map (fixed before ++ ·)) =
      (writeAll placeholder bound documents).map (before ++ ·) := by
  induction documents generalizing bound with
  | nil => rfl
  | cons first rest ih => simp [writeAll, ih]

/-- Documents with a fixed text between each two of them. -/
def separated (separator : String) (documents : List Document) : Document :=
  (fixed separator).intercalate documents

@[simp] theorem separated_nil (separator : String) : separated separator [] = [] :=
  rfl

@[simp] theorem separated_singleton (separator : String) (document : Document) :
    separated separator [document] = document := by
  simp [separated]

@[simp] theorem separated_cons_cons (separator : String) (first second : Document)
    (rest : List Document) :
    separated separator (first :: second :: rest) =
      first ++ fixed separator ++ separated separator (second :: rest) := by
  simp [separated]

theorem literals_separated (separator : String) (documents : List Document) :
    literals (separated separator documents) = documents.flatMap literals := by
  induction documents with
  | nil => rfl
  | cons first rest ih =>
    cases rest with
    | nil => simp
    | cons second rest => simp_all

theorem write_separated (separator : String) (documents : List Document) :
    write placeholder bound (separated separator documents) =
      separator.intercalate (writeAll placeholder bound documents) := by
  induction documents generalizing bound with
  | nil => simp [writeAll]
  | cons first rest ih =>
    cases rest with
    | nil => simp [writeAll]
    | cons second rest => simp_all [writeAll, String.append_assoc]

end Document

end SqlSelect
