/-!
# Quoted fragments

A text counts as quoted already when some quote mark occurs in it twice with
something in between. Only the first and the last occurrence of each mark are
looked at, by their offsets in the encoded text: the marks take one byte each,
so two bytes apart means that they are neither the same mark nor adjacent.
-/

namespace SqlSelect.Text

/-- The backtick, the double quote and the single quote. -/
def quoteMarks : List Char :=
  ['\x60', '\x22', '\x27']

/-- The byte offset at which a character first occurs. -/
def firstOffset? (mark : Char) : List Char → Option Nat
  | [] => none
  | c :: rest => if c = mark then some 0 else (firstOffset? mark rest).map (c.utf8Size + ·)

/-- The byte offset at which a character last occurs. -/
def lastOffset? (mark : Char) : List Char → Option Nat
  | [] => none
  | c :: rest =>
    match lastOffset? mark rest with
    | some offset => some (c.utf8Size + offset)
    | none => if c = mark then some 0 else none

/-- Whether the outermost occurrences of a mark enclose something. -/
def encloses (mark : Char) (cs : List Char) : Bool :=
  match firstOffset? mark cs, lastOffset? mark cs with
  | some first, some last => first + 2 ≤ last
  | _, _ => false

def hasQuotedFragment (cs : List Char) : Bool :=
  quoteMarks.any fun mark ↦ encloses mark cs

end SqlSelect.Text
