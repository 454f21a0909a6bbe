import SqlSelect.Options
import SqlSelect.Text.Quoted

/-!
# Scanning for delimiters

A scanner follows a text through quoted identifiers and string literals and counts
the parentheses outside of them. A text is self-contained if it leaves the scanner
as it found it and closes no parenthesis that it did not open.
-/

namespace SqlSelect

/-! ## The scanner -/

inductive ScanMode where
  | normal
  | identifier
  | string
deriving DecidableEq, Repr

structure ScanState where
  mode : ScanMode := .normal
  /-- How many parentheses are open. -/
  depth : Nat := 0
deriving DecidableEq, Repr

namespace ScanState

/-- There is no next state if a parenthesis is closed that is not open. -/
def next (quote : Char) (state : ScanState) (c : Char) : Option ScanState :=
  match state.mode with
  | .normal =>
    if c = quote then some { state with mode := .identifier }
    else if c = '\x27' then some { state with mode := .string }
    else if c = '(' then some { state with depth := state.depth + 1 }
    else if c = ')' then
      match state.depth with
      | 0 => none
      | depth + 1 => some { state with depth }
    else some state
  | .identifier => some (if c = quote then { state with mode := .normal } else state)
  | .string => some (if c = '\x27' then { state with mode := .normal } else state)

end ScanState

def scan (quote : Char) (state : ScanState) (cs : List Char) : Option ScanState :=
  cs.foldlM (ScanState.next quote) state

/-- The scanner ends as it starts, outside of all delimiters. -/
def SelfContained (quote : Char) (text : String) : Prop :=
  scan quote {} text.toList = some {}

instance (quote : Char) (text : String) : Decidable (SelfContained quote text) :=
  inferInstanceAs (Decidable (_ = _))

/-- The text starts with a parenthesis that stays open up to the last character. -/
structure Enclosed (quote : Char) (text : String) : Prop where
  starts : text.toList.head? = some '('
  selfContained : SelfContained quote text
  stays_open : ∀ count, 0 < count → count < text.toList.length →
    ∃ state, scan quote {} (text.toList.take count) = some state ∧ 0 < state.depth

section

variable {quote : Char}

@[simp] theorem scan_nil (state : ScanState) : scan quote state [] = some state :=
  rfl

theorem scan_cons (state : ScanState) (c : Char) (cs : List Char) :
    scan quote state (c :: cs) = (state.next quote c).bind fun after ↦ scan quote after cs :=
  rfl

theorem scan_append {state middle : ScanState} {cs : List Char} (ds : List Char)
    (h : scan quote state cs = some middle) :
    scan quote state (cs ++ ds) = scan quote middle ds := by
  have happend : scan quote state (cs ++ ds) =
      (scan quote state cs).bind fun after ↦ scan quote after ds :=
    List.foldlM_append
  rw [happend, h, Option.bind_some]

/-- Parentheses that are open before have no influence. -/
theorem next_deeper {state after : ScanState} {c : Char} (extra : Nat)
    (h : state.next quote c = some after) :
    ScanState.next quote { state with depth := state.depth + extra } c =
      some { after with depth := after.depth + extra } := by
  obtain ⟨mode, depth⟩ := state
  cases mode with
  | normal =>
    cases depth with
    | zero =>
      unfold ScanState.next at h ⊢
      grind
    | succ depth =>
      unfold ScanState.next at h ⊢
      grind
  | identifier | string =>
    unfold ScanState.next at h ⊢
    grind

theorem scan_deeper {state after : ScanState} {cs : List Char} (extra : Nat)
    (h : scan quote state cs = some after) :
    scan quote { state with depth := state.depth + extra } cs =
      some { after with depth := after.depth + extra } := by
  induction cs generalizing state with
  | nil =>
    cases h
    rfl
  | cons c cs ih =>
    rw [scan_cons] at h ⊢
    obtain ⟨middle, hmiddle, hafter⟩ := Option.bind_eq_some_iff.mp h
    rw [next_deeper extra hmiddle, Option.bind_some]
    exact ih hafter

/-- What the scanner pays no attention to outside of quotes. -/
def Plain (quote c : Char) : Prop :=
  c ≠ quote ∧ c ≠ '\x27' ∧ c ≠ '(' ∧ c ≠ ')'

theorem scan_plain {cs : List Char} (h : ∀ c ∈ cs, Plain quote c) : scan quote {} cs = some {} := by
  induction cs with
  | nil => rfl
  | cons c cs ih =>
    obtain ⟨hquote, hapostrophe, hopen, hclose⟩ := h c List.mem_cons_self
    have hnext : ScanState.next quote {} c = some {} := by
      simp [ScanState.next, hquote, hapostrophe, hopen, hclose]
    rw [scan_cons, hnext, Option.bind_some]
    exact ih fun d hd ↦ h d (List.mem_cons_of_mem c hd)

/-! ## Self-contained texts -/

namespace SelfContained

variable {first second text : String}

theorem scan_eq (h : SelfContained quote text) (depth : Nat) :
    scan quote { depth } text.toList = some { depth } := by
  have hdeeper := scan_deeper depth h
  rwa [Nat.zero_add] at hdeeper

theorem empty : SelfContained quote "" :=
  rfl

theorem append (hfirst : SelfContained quote first) (hsecond : SelfContained quote second) :
    SelfContained quote (first ++ second) := by
  unfold SelfContained
  rw [String.toList_append, scan_append _ hfirst]
  exact hsecond

end SelfContained

/-! ## Parentheses -/

theorem scan_open (hquote : quote ≠ '(') (depth : Nat) (cs : List Char) :
    scan quote { depth } ('(' :: cs) = scan quote { depth := depth + 1 } cs := by
  have hnext : ScanState.next quote { depth } '(' = some { depth := depth + 1 } := by
    simp [ScanState.next, hquote.symm]
  rw [scan_cons, hnext, Option.bind_some]

theorem scan_close (hquote : quote ≠ ')') (depth : Nat) (cs : List Char) :
    scan quote { depth := depth + 1 } (')' :: cs) = scan quote { depth } cs := by
  have hnext : ScanState.next quote { depth := depth + 1 } ')' = some { depth } := by
    simp [ScanState.next, hquote.symm]
  rw [scan_cons, hnext, Option.bind_some]

/-- A scan that succeeds has succeeded on every part that it has read. -/
theorem scan_take {state after : ScanState} {cs : List Char} (h : scan quote state cs = some after)
    (count : Nat) : ∃ middle, scan quote state (cs.take count) = some middle := by
  induction cs generalizing state count with
  | nil => exact ⟨state, by simp⟩
  | cons c cs ih =>
    cases count with
    | zero => exact ⟨state, by simp⟩
    | succ count =>
      rw [scan_cons] at h
      obtain ⟨next, hnext, hafter⟩ := Option.bind_eq_some_iff.mp h
      obtain ⟨middle, hmiddle⟩ := ih hafter count
      refine ⟨middle, ?_⟩
      rw [List.take_succ_cons, scan_cons, hnext, Option.bind_some]
      exact hmiddle

theorem Enclosed.parenthesized (hopen : quote ≠ '(') (hclose : quote ≠ ')') {inner : String}
    (h : SelfContained quote inner) : Enclosed quote ("(" ++ inner ++ ")") := by
  have htext : ("(" ++ inner ++ ")").toList = '(' :: (inner.toList ++ [')']) := by simp
  constructor
  · rw [htext]
    rfl
  · unfold SelfContained
    rw [htext, scan_open hopen, scan_append _ (h.scan_eq 1), scan_close hclose]
    rfl
  · intro count hpositive hcount
    obtain ⟨count, rfl⟩ := Nat.exists_eq_add_one_of_ne_zero (Nat.ne_of_gt hpositive)
    have hinner : count ≤ inner.toList.length := by
      rw [htext] at hcount
      simp only [List.length_cons, List.length_append, List.length_nil] at hcount
      omega
    obtain ⟨middle, hmiddle⟩ := scan_take h count
    refine ⟨{ middle with depth := middle.depth + 1 }, ?_, Nat.succ_pos _⟩
    rw [htext, List.take_succ_cons, scan_open hopen, List.take_append_of_le_length hinner]
    exact scan_deeper 1 hmiddle

/-! ## Quoted texts -/

/-- Inside of quotes nothing but the quote is looked at. -/
theorem scan_identifier {cs : List Char} (h : quote ∉ cs) (depth : Nat) :
    scan quote { mode := .identifier, depth } cs = some { mode := .identifier, depth } := by
  induction cs with
  | nil => rfl
  | cons c cs ih =>
    rw [List.mem_cons, not_or] at h
    have hnext : ScanState.next quote { mode := .identifier, depth } c =
        some { mode := .identifier, depth } := by
      simp [ScanState.next, Ne.symm h.1]
    rw [scan_cons, hnext, Option.bind_some]
    exact ih h.2

theorem scan_quoted {segment : List Char} (h : quote ∉ segment) (depth : Nat) :
    scan quote { depth } (quote :: (segment ++ [quote])) = some { depth } := by
  have hstart : ScanState.next quote { depth } quote =
      some { mode := .identifier, depth } := by
    simp [ScanState.next]
  have hend : ScanState.next quote { mode := .identifier, depth } quote = some { depth } := by
    simp [ScanState.next]
  rw [scan_cons, hstart, Option.bind_some, scan_append _ (scan_identifier h depth), scan_cons,
    hend]
  rfl

/-- A quote inside of a string literal is written twice, which leaves the literal and enters it
again. -/
theorem scan_doubleQuotes (hquote : quote ≠ '\x27') (cs : List Char) (depth : Nat) :
    scan quote { mode := .string, depth } (Text.doubleQuotes cs) =
      some { mode := .string, depth } := by
  induction cs with
  | nil => rfl
  | cons c cs ih =>
    have hleave : ScanState.next quote { mode := .string, depth } '\x27' = some { depth } := by
      simp [ScanState.next]
    have henter : ScanState.next quote { depth } '\x27' =
        some { mode := .string, depth } := by
      simp [ScanState.next, hquote.symm]
    rw [← List.singleton_append, Text.doubleQuotes_append]
    by_cases hc : c = '\x27'
    · have hdouble : Text.doubleQuotes [c] = ['\x27', '\x27'] := by simp [Text.doubleQuotes, hc]
      rw [hdouble, List.cons_append, scan_cons, hleave, Option.bind_some, List.singleton_append,
        scan_cons, henter, Option.bind_some]
      exact ih
    · have hsingle : Text.doubleQuotes [c] = [c] := by simp [Text.doubleQuotes, hc]
      have hstay : ScanState.next quote { mode := .string, depth } c =
          some { mode := .string, depth } := by
        simp [ScanState.next, hc]
      rw [hsingle, List.singleton_append, scan_cons, hstay, Option.bind_some]
      exact ih

/-- A string literal is self-contained, whatever it holds. -/
theorem SelfContained.quoted (hquote : quote ≠ '\x27') (key : String) :
    SelfContained quote (Text.quoted key) := by
  have henter : ScanState.next quote {} '\x27' = some { mode := .string } := by
    simp [ScanState.next, hquote.symm]
  have hleave : ScanState.next quote { mode := .string } '\x27' = some {} := by
    simp [ScanState.next]
  unfold SelfContained
  rw [Text.toList_quoted, scan_cons, henter, Option.bind_some,
    scan_append _ (scan_doubleQuotes hquote key.toList 0), scan_cons, hleave]
  rfl

end

end SqlSelect
