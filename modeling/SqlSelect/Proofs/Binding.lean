import Mathlib.Data.List.Forall2
import SqlSelect.Render

/-!
# Binding values in order

What stands in parameters stays there, and what is bound next comes behind it: truth
values as the integers 0 and 1, all other values as they are.
-/

namespace SqlSelect

theorem Value.forall₂_boundAs_iff {values bound : List Value} :
    List.Forall₂ BoundAs values bound ↔ bound = values.map normalize := by
  have hboundAs : BoundAs = fun value bound ↦ value.normalize = bound := by
    funext value bound
    exact propext (boundAs_iff.trans eq_comm)
  rw [hboundAs, eq_comm, ← List.forall₂_eq_eq_eq, List.forall₂_map_left_iff]

namespace Params

/-- The parameters after values are bound one after the other. -/
def append (params : Params) (values : List Value) : Params :=
  { params with values := params.values ++ (values.map Value.normalize).toArray }

@[simp] theorem append_nil (params : Params) : params.append [] = params := by
  simp [append]

@[simp] theorem append_append (params : Params) (first second : List Value) :
    (params.append first).append second = params.append (first ++ second) := by
  simp [append]

theorem push_eq_append (params : Params) (value : Value) :
    params.push value = params.append [value] := by
  simp [push, append]

@[simp] theorem placeholder_append (params : Params) (values : List Value) :
    (params.append values).placeholder = params.placeholder :=
  rfl

@[simp] theorem size_append (params : Params) (values : List Value) :
    (params.append values).size = params.size + values.length := by
  simp [append, size]

theorem eq_append_iff {params after : Params} {values : List Value} :
    after = params.append values ↔
      after.placeholder = params.placeholder ∧
        after.values = params.values ++ (values.map Value.normalize).toArray := by
  cases after
  simp [append]

/-- The values are bound behind those that are bound already, each in its form. -/
structure Binds (params : Params) (values : List Value) (after : Params) : Prop where
  placeholder_eq : after.placeholder = params.placeholder
  exists_bound : ∃ bound, List.Forall₂ Value.BoundAs values bound ∧
    after.values = params.values ++ bound.toArray

theorem binds_iff {params after : Params} {values : List Value} :
    params.Binds values after ↔ after = params.append values := by
  rw [eq_append_iff]
  constructor
  · rintro ⟨hplaceholder, bound, hbound, hvalues⟩
    rw [Value.forall₂_boundAs_iff.mp hbound] at hvalues
    exact ⟨hplaceholder, hvalues⟩
  · rintro ⟨hplaceholder, hvalues⟩
    exact ⟨hplaceholder, _, Value.forall₂_boundAs_iff.mpr rfl, hvalues⟩

end Params

theorem bindValue_apply (value : Value) (params : Params) :
    bindValue value params =
      .ok (params.placeholder.token (params.size + 1)) (params.append [value]) := by
  rw [← Params.push_eq_append, ← Params.bind_fst params value]
  rfl

/-- The places of values bound after `bound` others. -/
def tokens (placeholder : Placeholder) : Nat → List Value → List String
  | _, [] => []
  | bound, _ :: rest => placeholder.token (bound + 1) :: tokens placeholder (bound + 1) rest

theorem bindValues_apply (values : List Value) (params : Params) :
    bindValues values params =
      .ok (tokens params.placeholder params.size values) (params.append values) := by
  induction values generalizing params with
  | nil => simp [bindValues, tokens, pure, EStateM.pure]
  | cons value rest ih =>
    rw [bindValues]
    simp only [bind, EStateM.bind, bindValue_apply, ih]
    simp [tokens, pure, EStateM.pure]

/-! ## Renderings one after the other -/

section

variable {α β : Type} {first : Rendering α} {next : α → Rendering β}

theorem bind_eq_ok_iff {params after : Params} {result : β} :
    (first >>= next) params = .ok result after ↔
      ∃ value middle, first params = .ok value middle ∧ next value middle = .ok result after := by
  change EStateM.bind first next params = _ ↔ _
  unfold EStateM.bind
  cases first params with
  | ok value middle =>
    constructor
    · exact fun hnext ↦ ⟨value, middle, rfl, hnext⟩
    · rintro ⟨_, _, ⟨⟩, hnext⟩
      exact hnext
  | error error left => exact ⟨nofun, nofun⟩

theorem map_eq_ok_iff {layout : α → β} {params after : Params} {result : β} :
    (layout <$> first) params = .ok result after ↔
      ∃ value, first params = .ok value after ∧ layout value = result := by
  change EStateM.map layout first params = _ ↔ _
  unfold EStateM.map
  cases first params with
  | ok value middle =>
    constructor
    · rintro ⟨⟩
      exact ⟨value, rfl, rfl⟩
    · rintro ⟨_, ⟨⟩, rfl⟩
      rfl
  | error error left => exact ⟨nofun, nofun⟩

end

/-- A rendering is known from what it gives once its text is made optional. -/
theorem eq_of_return_some {first second : Rendering String}
    (h : (do let text ← first; return some text : Rendering (Option String)) =
      do let text ← second; return some text) : first = second := by
  funext params
  have hparams := congrFun h params
  change EStateM.bind first (fun text ↦ pure (some text)) params =
    EStateM.bind second (fun text ↦ pure (some text)) params at hparams
  unfold EStateM.bind at hparams
  cases hfirst : first params <;> cases hsecond : second params <;>
    rw [hfirst, hsecond] at hparams <;> cases hparams <;> rfl

theorem prepare_eq_ok {text : Type} {placeholder : Placeholder} {rendering : Rendering text}
    {result : Prepared text} (h : prepare placeholder rendering = .ok result) :
    ∃ params, rendering (Params.empty placeholder) = .ok result.text params ∧
      result.arguments = params.values := by
  unfold prepare EStateM.run at h
  cases hrun : rendering (Params.empty placeholder) with
  | ok text params =>
    rw [hrun] at h
    cases h
    exact ⟨params, rfl, rfl⟩
  | error error params =>
    rw [hrun] at h
    cases h

end SqlSelect
