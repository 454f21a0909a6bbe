import SqlSelect.Proofs.Document

/-!
# Numbered text

A text that was written still tells its placeholders from the text around them when
it is taken as a list of segments. Writing a document elsewhere shifts the numbers in
it and changes nothing else.
-/

namespace SqlSelect

/-- A stretch of fixed text, or a placeholder with its number and the literal it stands for. -/
inductive Segment where
  | fixed (text : String)
  | token (position : Nat) (value : Value)
deriving DecidableEq, Repr

namespace Segment

def text (placeholder : Placeholder) : Segment → String
  | fixed text => text
  | token position _ => placeholder.token position

def join (placeholder : Placeholder) (segments : List Segment) : String :=
  String.join (segments.map (text placeholder))

@[simp] theorem join_fixed_cons (placeholder : Placeholder) (text : String)
    (rest : List Segment) :
    join placeholder (fixed text :: rest) = text ++ join placeholder rest := by
  simp [join, Segment.text]

@[simp] theorem join_token_cons (placeholder : Placeholder) (position : Nat) (value : Value)
    (rest : List Segment) :
    join placeholder (token position value :: rest) =
      placeholder.token position ++ join placeholder rest := by
  simp [join, Segment.text]

/-- The placeholders, each as its literal and its number. -/
def tokens : List Segment → List (Value × Nat)
  | [] => []
  | fixed _ :: rest => tokens rest
  | token position value :: rest => (value, position) :: tokens rest

def shift (count : Nat) : Segment → Segment
  | fixed text => fixed text
  | token position value => token (position + count) value

/-- A question mark bears no number. -/
theorem join_map_shift_questionMark (count : Nat) (segments : List Segment) :
    join .questionMark (segments.map (shift count)) = join .questionMark segments := by
  unfold join
  rw [List.map_map]
  congr 2
  funext segment
  cases segment <;> rfl

end Segment

namespace Document

/-- The segments of a document whose first literal is the parameter after `bound` others. -/
def segments : Nat → Document → List Segment
  | _, [] => []
  | bound, .fixed text :: rest => .fixed text :: segments bound rest
  | bound, .literal value :: rest => .token (bound + 1) value :: segments (bound + 1) rest

theorem join_segments (placeholder : Placeholder) (bound : Nat) (document : Document) :
    Segment.join placeholder (segments bound document) = write placeholder bound document := by
  induction document generalizing bound with
  | nil => rfl
  | cons chunk rest ih =>
    cases chunk with
    | fixed text => rw [segments, write, Segment.join_fixed_cons, ih]
    | literal value => rw [segments, write, Segment.join_token_cons, ih]

theorem segments_add (bound count : Nat) (document : Document) :
    segments (bound + count) document = (segments bound document).map (Segment.shift count) := by
  induction document generalizing bound with
  | nil => rfl
  | cons chunk rest ih =>
    cases chunk with
    | fixed text => simp [segments, ih, Segment.shift]
    | literal value => simp [segments, ← ih, Segment.shift, Nat.add_right_comm]

/-- The literals are numbered one after the other. -/
theorem tokens_segments (bound : Nat) (document : Document) :
    Segment.tokens (segments bound document) = (literals document).zipIdx (bound + 1) := by
  induction document generalizing bound with
  | nil => rfl
  | cons chunk rest ih =>
    cases chunk with
    | fixed text => exact ih bound
    | literal value => exact congrArg ((value, bound + 1) :: ·) (ih (bound + 1))

end Document

end SqlSelect
