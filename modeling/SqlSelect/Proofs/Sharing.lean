import SqlSelect.Session
import SqlSelect.Proofs.Indistinguishable
import SqlSelect.Proofs.Numbering

/-!
# Sessions keep their parameters consistent

Each step of a session goes on from the parameters that the steps before it leave,
those that failed included. What is bound is never taken back, so a placeholder keeps
its meaning to the end of the session, and the numbers that no text mentions are those
that failing steps have used up.
-/

namespace SqlSelect

/-- The later parameters begin with the earlier ones and mark their places alike. -/
structure Params.Extends (later earlier : Params) : Prop where
  placeholder_eq : later.placeholder = earlier.placeholder
  values_prefix : earlier.values.toList <+: later.values.toList

namespace Params.Extends

variable {params middle later : Params}

theorem refl (params : Params) : Extends params params :=
  ⟨rfl, List.prefix_refl _⟩

theorem trans (h : Extends later middle) (hearlier : Extends middle params) :
    Extends later params :=
  ⟨h.placeholder_eq.trans hearlier.placeholder_eq, hearlier.values_prefix.trans h.values_prefix⟩

theorem append (params : Params) (values : List Value) : Extends (params.append values) params := by
  refine ⟨rfl, ?_⟩
  simp [Params.append]

theorem size_le (h : Extends later params) : params.size ≤ later.size :=
  h.values_prefix.length_le

theorem getElem?_eq (h : Extends later params) {index : Nat} {value : Value}
    (hvalue : params.values[index]? = some value) : later.values[index]? = some value := by
  obtain ⟨rest, hrest⟩ := h.values_prefix
  rw [← Array.getElem?_toList] at hvalue ⊢
  obtain ⟨hindex, -⟩ := List.getElem?_eq_some_iff.mp hvalue
  rw [← hrest, List.getElem?_append_left hindex]
  exact hvalue

end Params.Extends

namespace Session

/-! ## One step -/

namespace Step

/-- What the step renders, without any parameters. -/
def document : Step → Except BuildError Document
  | bind value => pure (.literal value)
  | statement query options => Node.document (query.style options) query
  | piece rendered style => rendered.document style

def visit : Step → Visit
  | bind value => .ofValues [value]
  | statement query _ => query.visit
  | piece rendered _ => rendered.visit

theorem perform_delivers (step : Step) (params : Params) :
    Delivers params (Kind.one .entry) (step.perform params) step.document := by
  cases step with
  | bind value => exact .written (by simp) (by simp [Params.push_eq_append])
  | statement query options => exact (Node.render_delivers _ query params).recast
  | piece rendered style => exact rendered.render_delivers style params

theorem perform_follows (step : Step) : Follows step.perform step.visit := by
  cases step with
  | bind value => exact bindValue_follows value
  | statement query options => exact Node.render_follows _ query
  | piece rendered style => exact rendered.render_follows style

end Step

/-- A step of a session at the parameters that it starts from. -/
structure Turn where
  step : Step
  start : Params

namespace Turn

variable (turn : Turn)

/-- The text that the step returns, if it does not fail. -/
def text? : Option String :=
  (answer (turn.step.perform.run turn.start)).toOption

/-- The parameters that the step leaves, if it fails as well. -/
def finish : Params :=
  leftover (turn.step.perform.run turn.start)

/-- The returned text with its placeholders told apart. -/
def segments? : Option (List Segment) :=
  turn.step.document.toOption.map (·.segments turn.start.size)

/-- The placeholders in the returned text, each as its literal and its number. -/
def tokens : List (Value × Nat) :=
  turn.segments?.elim [] Segment.tokens

def positions : List Nat :=
  turn.tokens.map Prod.snd

theorem finish_eq : turn.finish = turn.start.append turn.step.visit.bound :=
  turn.step.perform_follows.leftover_eq turn.start

theorem finish_extends : turn.finish.Extends turn.start := by
  rw [finish_eq]
  exact .append turn.start _

/-- A text is returned exactly if the step has a document, and then is the document written at
the place that the parameters have reached. -/
theorem text?_eq : turn.text? = turn.segments?.map (Segment.join turn.start.placeholder) := by
  have hanswer := (turn.step.perform_delivers turn.start).answer_eq
  unfold text? segments?
  rw [show answer (turn.step.perform.run turn.start) = _ from hanswer]
  cases turn.step.document with
  | error error => rfl
  | ok document => exact congrArg some (Document.join_segments _ _ document).symm

variable {turn}

/-- A step that returns a text binds the literals of its document and nothing else. -/
theorem exists_document {text : String} (h : turn.text? = some text) :
    ∃ document, turn.step.document = .ok document ∧
      turn.finish = turn.start.append document.literals := by
  unfold text? at h
  unfold finish
  cases hresult : turn.step.perform.run turn.start with
  | error error after =>
    rw [hresult] at h
    cases h
  | ok text after =>
    obtain ⟨document, hdocument, -, hafter⟩ :=
      ((turn.step.perform_delivers turn.start).eq_ok_iff text after).mp hresult
    exact ⟨document, hdocument, hafter⟩

theorem tokens_of_document {document : Document} (h : turn.step.document = .ok document) :
    turn.tokens = document.literals.zipIdx (turn.start.size + 1) := by
  unfold tokens segments?
  rw [h]
  exact Document.tokens_segments turn.start.size document

/-- So its placeholders have the numbers of all that it binds. -/
theorem positions_of_text {text : String} (h : turn.text? = some text) :
    turn.positions = List.range' (turn.start.size + 1) (turn.finish.size - turn.start.size) := by
  obtain ⟨document, hdocument, hfinish⟩ := exists_document h
  rw [positions, tokens_of_document hdocument, List.zipIdx_map_snd, hfinish, Params.size_append,
    Nat.add_sub_cancel_left]

theorem tokens_of_failure (h : turn.text? = none) : turn.tokens = [] := by
  rw [text?_eq, Option.map_eq_none_iff] at h
  rw [tokens, h]
  rfl

theorem mem_positions_iff {position : Nat} :
    position ∈ turn.positions ↔
      turn.text? ≠ none ∧ turn.start.size < position ∧ position ≤ turn.finish.size := by
  have hsize := turn.finish_extends.size_le
  cases htext : turn.text? with
  | none => simp [positions, tokens_of_failure htext]
  | some text =>
    rw [positions_of_text htext, List.mem_range'_1]
    simp
    omega

theorem value_of_mem_tokens {value : Value} {position : Nat}
    (h : (value, position) ∈ turn.tokens) :
    0 < position ∧ turn.finish.values[position - 1]? = some value.normalize := by
  cases htext : turn.text? with
  | none =>
    rw [tokens_of_failure htext] at h
    cases h
  | some text =>
    obtain ⟨document, hdocument, hfinish⟩ := exists_document htext
    rw [tokens_of_document hdocument, List.mk_mem_zipIdx_iff_le_and_getElem?_sub] at h
    obtain ⟨hposition, hvalue⟩ := h
    have hindex : position - 1 - turn.start.values.size = position - (turn.start.size + 1) := by
      unfold Params.size
      omega
    refine ⟨by omega, ?_⟩
    rw [hfinish, Params.append, Array.getElem?_append_right (by unfold Params.size at *; omega),
      hindex]
    simp [hvalue]

end Turn

/-! ## A whole session -/

/-- The turns of a session, each from the parameters that the one before it leaves. -/
def turns : Params → List Step → List Turn
  | _, [] => []
  | params, step :: rest => ⟨step, params⟩ :: turns (Turn.finish ⟨step, params⟩) rest

/-- The parameters at the end of a session. -/
def finish (params : Params) (steps : List Step) : Params :=
  steps.foldl (fun params step ↦ Turn.finish ⟨step, params⟩) params

/-- The numbers of all placeholders returned, in the order in which they are returned. -/
def positions (params : Params) (steps : List Step) : List Nat :=
  (turns params steps).flatMap Turn.positions

theorem finish_extends (params : Params) (steps : List Step) :
    (finish params steps).Extends params := by
  induction steps generalizing params with
  | nil => exact .refl params
  | cons step rest ih => exact (ih _).trans (Turn.finish_extends ⟨step, params⟩)

/-- Each turn lies between the beginning of the session and its end. -/
theorem extends_of_mem_turns {params : Params} {steps : List Step} {turn : Turn}
    (h : turn ∈ turns params steps) :
    turn.start.Extends params ∧ (finish params steps).Extends turn.finish := by
  induction steps generalizing params with
  | nil => cases h
  | cons step rest ih =>
    rcases List.mem_cons.mp h with rfl | hrest
    · exact ⟨.refl params, finish_extends _ rest⟩
    · obtain ⟨hstart, hfinish⟩ := ih hrest
      exact ⟨hstart.trans (Turn.finish_extends ⟨step, params⟩), hfinish⟩

theorem lt_of_mem_positions {params : Params} {steps : List Step} {position : Nat}
    (h : position ∈ positions params steps) : params.size < position := by
  obtain ⟨turn, hturn, hposition⟩ := List.mem_flatMap.mp h
  have hstart := (extends_of_mem_turns hturn).1.size_le
  exact Nat.lt_of_le_of_lt hstart (Turn.mem_positions_iff.mp hposition).2.1

/-- The numbers of a turn lie below those of all later turns. -/
theorem positions_increase (params : Params) (steps : List Step) :
    (positions params steps).Pairwise (· < ·) := by
  induction steps generalizing params with
  | nil => exact .nil
  | cons step rest ih =>
    let turn : Turn := ⟨step, params⟩
    have hturn : turn.positions.Pairwise (· < ·) := by
      cases htext : turn.text? with
      | none => simp [Turn.positions, Turn.tokens_of_failure htext]
      | some text =>
        rw [Turn.positions_of_text htext]
        exact List.pairwise_lt_range'
    rw [positions, turns, List.flatMap_cons, List.pairwise_append]
    refine ⟨hturn, ih _, ?_⟩
    intro position hposition later hlater
    exact Nat.lt_of_le_of_lt (Turn.mem_positions_iff.mp hposition).2.2 (lt_of_mem_positions hlater)

/-- Every number that is given out belongs to the turn that has bound its value. -/
theorem exists_turn {params : Params} {steps : List Step} {position : Nat}
    (hlow : params.size < position) (hhigh : position ≤ (finish params steps).size) :
    ∃ turn ∈ turns params steps,
      turn.start.size < position ∧ position ≤ turn.finish.size := by
  induction steps generalizing params with
  | nil => exact absurd hhigh (Nat.not_le_of_gt hlow)
  | cons step rest ih =>
    let turn : Turn := ⟨step, params⟩
    by_cases hturn : position ≤ turn.finish.size
    · exact ⟨turn, List.mem_cons_self, hlow, hturn⟩
    · obtain ⟨later, hlater, hposition⟩ := ih (Nat.lt_of_not_le hturn) hhigh
      exact ⟨later, List.mem_cons_of_mem turn hlater, hposition⟩

/-- Turns do not share numbers. -/
theorem turn_unique {params : Params} {steps : List Step} {turn other : Turn}
    (hturn : turn ∈ turns params steps) (hother : other ∈ turns params steps) {position : Nat}
    (hposition : turn.start.size < position ∧ position ≤ turn.finish.size)
    (hshared : other.start.size < position ∧ position ≤ other.finish.size) : turn = other := by
  induction steps generalizing params with
  | nil => cases hturn
  | cons step rest ih =>
    rcases List.mem_cons.mp hturn with rfl | hturn <;>
      rcases List.mem_cons.mp hother with rfl | hother
    · rfl
    · have hlater := (extends_of_mem_turns hother).1.size_le
      omega
    · have hlater := (extends_of_mem_turns hturn).1.size_le
      omega
    · exact ih hturn hother

theorem not_mem_positions_iff {params : Params} {steps : List Step} {position : Nat}
    (hlow : params.size < position) (hhigh : position ≤ (finish params steps).size) :
    position ∉ positions params steps ↔
      ∃ turn ∈ turns params steps,
        turn.text? = none ∧ turn.start.size < position ∧ position ≤ turn.finish.size := by
  constructor
  · intro hunused
    obtain ⟨turn, hturn, hposition⟩ := exists_turn hlow hhigh
    refine ⟨turn, hturn, Decidable.byContradiction fun htext ↦ ?_, hposition⟩
    exact hunused (List.mem_flatMap_of_mem hturn (Turn.mem_positions_iff.mpr ⟨htext, hposition⟩))
  · rintro ⟨turn, hturn, htext, hposition⟩ hused
    obtain ⟨other, hother, hmem⟩ := List.mem_flatMap.mp hused
    obtain ⟨hreturns, hshared⟩ := Turn.mem_positions_iff.mp hmem
    rw [turn_unique hturn hother hposition hshared] at htext
    exact hreturns htext

/-- At every turn the values bound before stay as they are and the style of the placeholders does
too. The placeholders that a text mentions stand for the same literals to the end, their numbers
increase from text to text, and those that no text mentions were used up by failing steps. -/
theorem shared_parameters_stay_consistent (params : Params) (steps : List Step) :
    (∀ turn ∈ turns params steps,
      turn.start.Extends params ∧ turn.finish.Extends turn.start ∧
        (finish params steps).Extends turn.finish ∧
        turn.text? = turn.segments?.map (Segment.join params.placeholder) ∧
        ∀ value position, (value, position) ∈ turn.tokens →
          0 < position ∧ (finish params steps).values[position - 1]? = some value.normalize) ∧
    (positions params steps).Pairwise (· < ·) ∧
    ∀ position, params.size < position → position ≤ (finish params steps).size →
      (position ∉ positions params steps ↔
        ∃ turn ∈ turns params steps,
          turn.text? = none ∧ turn.start.size < position ∧ position ≤ turn.finish.size) := by
  refine ⟨?_, positions_increase params steps, fun position ↦ not_mem_positions_iff⟩
  intro turn hturn
  obtain ⟨hstart, hfinish⟩ := extends_of_mem_turns hturn
  refine ⟨hstart, turn.finish_extends, hfinish, ?_, ?_⟩
  · rw [turn.text?_eq, hstart.placeholder_eq]
  · intro value position htoken
    obtain ⟨hposition, hvalue⟩ := Turn.value_of_mem_tokens htoken
    exact ⟨hposition, hfinish.getElem?_eq hvalue⟩

/-- The second step fails after it has bound a value, so the statement after it starts at 3. -/
theorem shared_parameters_after_failure :
    let query : Select := .select .nil (.present (.namedTable "t" none)) .nil
      (.cons (.single .and (.paired (.name "a") (.compareValue .eq (.int 7)))) .nil)
      .nil .nil .nil {}
    let broken : Expr := .coalesce (.cons (.literal (.bool true))
      (.cons (.inline (.computed (.compareValue .between .null))) .nil))
    let start := Params.empty .dollarNumbered
    let steps := [.bind (.string "x"), .piece (.node broken) default, .statement query .empty]
    positions start steps = [1, 3] ∧
      (finish start steps).values = #[.string "x", .int 1, .int 7] ∧
      ∃ turn ∈ turns start steps,
        turn.text? = none ∧ turn.start.size < 2 ∧ 2 ≤ turn.finish.size := by
  intro query broken start steps
  have hpositions : positions start steps = [1, 3] := by decide
  have hvalues : (finish start steps).values = #[.string "x", .int 1, .int 7] := rfl
  have hunused : 2 ∉ positions start steps := by
    rw [hpositions]
    decide
  have hsize : 2 ≤ (finish start steps).size := by
    rw [Params.size, hvalues]
    decide
  exact ⟨hpositions, hvalues,
    ((shared_parameters_stay_consistent start steps).2.2 2 (by decide) hsize).mp hunused⟩

end Session

end SqlSelect
