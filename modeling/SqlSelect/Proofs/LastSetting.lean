import SqlSelect.Proofs.Unread

/-!
# The last setting wins

Merging keeps, field by field, what was set last, so it does not matter how merges are
grouped, nor whether settings are made one after the other or merged in afterwards.
Defaults are filled in only when the options are resolved, and only where nothing was
set: choosing no quotes is a setting, which no flavor undoes.
-/

namespace SqlSelect.Options

/-! ## Merging -/

@[simp] theorem empty_merge (options : Options) : empty.merge options = options := by
  simp [merge, empty]

@[simp] theorem merge_empty (options : Options) : options.merge empty = options := by
  simp [merge, empty]

@[simp] theorem merge_self (options : Options) : options.merge options = options := by
  simp [merge]

theorem set_eq_merge (options : Options) (setting : Setting) :
    options.set setting = options.merge (empty.set setting) := by
  cases setting <;> simp [set, merge, empty]

/-- Settings made on options can be collected first and merged in afterwards. -/
theorem foldl_set_eq_merge (options : Options) (settings : List Setting) :
    settings.foldl set options = options.merge (ofSettings settings) := by
  induction settings generalizing options with
  | nil => exact (merge_empty options).symm
  | cons setting settings ih =>
    calc (setting :: settings).foldl set options
        = (options.set setting).merge (ofSettings settings) := ih (options.set setting)
      _ = options.merge ((empty.set setting).merge (ofSettings settings)) := by
          rw [set_eq_merge, merge_assoc]
      _ = options.merge (ofSettings (setting :: settings)) :=
          congrArg options.merge (ih (empty.set setting)).symm

/-! ## What is left of a field -/

/-- The value of a field in the last of the options that set it. -/
def lastSet? {α : Type} (field : Options → Option α) (options : List Options) : Option α :=
  (options.filterMap field).getLast?

/-- A field in which merging keeps the later setting. -/
structure KeepsLast {α : Type} (field : Options → Option α) : Prop where
  empty_eq : field empty = none
  merge_eq (base later : Options) : field (base.merge later) = (field later).or (field base)

namespace KeepsLast

theorem placeholder : KeepsLast Options.placeholder :=
  ⟨rfl, fun _ _ ↦ rfl⟩

theorem indent : KeepsLast Options.indent :=
  ⟨rfl, fun _ _ ↦ rfl⟩

theorem quoting : KeepsLast Options.quoting :=
  ⟨rfl, fun _ _ ↦ rfl⟩

theorem flavor : KeepsLast Options.flavor :=
  ⟨rfl, fun _ _ ↦ rfl⟩

end KeepsLast

/-! ## What settings leave in a field -/

namespace Setting

/-- The way to mark places that is set. -/
def placeholder? : Setting → Option Placeholder
  | .placeholder chosen => some chosen
  | _ => none

def indent? : Setting → Option String
  | .indent chosen => some chosen
  | _ => none

/-- Both a quote and the choice of none say how identifiers are set off. -/
def quoting? : Setting → Option Quoting
  | .quote chosen => some (.marked chosen)
  | .noQuote => some .bare
  | _ => none

def flavor? : Setting → Option Flavor
  | .flavor chosen => some chosen
  | _ => none

end Setting

/-- Settings made one after the other leave the last of those for the field. -/
theorem field_ofSettings {α : Type} {field : Options → Option α} (hfield : KeepsLast field)
    {read : Setting → Option α} (hread : ∀ setting, field (empty.set setting) = read setting)
    (settings : List Setting) :
    field (ofSettings settings) = (settings.filterMap read).getLast? := by
  induction settings with
  | nil => exact hfield.empty_eq
  | cons setting settings ih =>
    calc field (ofSettings (setting :: settings))
        = field ((empty.set setting).merge (ofSettings settings)) :=
          congrArg field (foldl_set_eq_merge (empty.set setting) settings)
      _ = ((settings.filterMap read).getLast?).or (read setting) := by
          rw [hfield.merge_eq, ih, hread]
      _ = ((setting :: settings).filterMap read).getLast? := by
          cases hsetting : read setting <;> simp [hsetting, List.getLast?_cons]

/-! ## Merges -/

/-- Options to be merged, grouped in some way. -/
inductive Merging where
  | nothing
  | one (options : Options)
  | both (base later : Merging)

namespace Merging

/-- The options from first to last. -/
def elements : Merging → List Options
  | nothing => []
  | one options => [options]
  | both base later => base.elements ++ later.elements

def result : Merging → Options
  | nothing => empty
  | one options => options
  | both base later => base.result.merge later.result

/-- The grouping leaves no trace in the result. -/
theorem field_result {α : Type} {field : Options → Option α} (hfield : KeepsLast field)
    (merging : Merging) : field merging.result = lastSet? field merging.elements := by
  induction merging with
  | nothing => exact hfield.empty_eq
  | one options => cases h : field options <;> simp [result, elements, lastSet?, h]
  | both base later ihBase ihLater =>
    calc field (base.result.merge later.result)
        = (field later.result).or (field base.result) := hfield.merge_eq _ _
      _ = (lastSet? field later.elements).or (lastSet? field base.elements) := by
          rw [ihBase, ihLater]
      _ = lastSet? field (base.elements ++ later.elements) := by
          rw [lastSet?, lastSet?, lastSet?, List.filterMap_append, List.getLast?_append]

end Merging

/-! ## What is resolved -/

/-- A style in which every field that was set has its value. The others have defaults, and of
these the quotes are the flavor's. -/
structure FilledIn (style : Style) (placeholder : Option Placeholder) (indent : Option String)
    (quoting : Option Quoting) (flavor : Option Flavor) : Prop where
  placeholder_eq : style.placeholder = placeholder.getD .questionMark
  indent_eq : style.indent = indent.getD "  "
  quoting_eq : style.quoting = quoting.getD (.marked (flavor.getD .mysql).defaultQuote)
  flavor_eq : style.flavor = flavor.getD .mysql
  jsonObjectFunction_eq : style.jsonObjectFunction = (flavor.getD .mysql).jsonObjectFunction
  jsonArrayFunction_eq : style.jsonArrayFunction = (flavor.getD .mysql).jsonArrayFunction

theorem filledIn_resolve (options : Options) :
    FilledIn options.resolve options.placeholder options.indent options.quoting options.flavor :=
  ⟨rfl, rfl, rfl, rfl, rfl, rfl⟩

/-- Merging is associative and idempotent with the empty options as its unit, and settings made
after others are merged into them. However options are grouped, resolving their merge reads the
last setting of each field, and so does resolving options after settings, where a quote and the
choice of none are settings of one field. The flavor decides about the quotes only if they were
not set. -/
theorem last_setting_wins :
    (∀ base later latest : Options,
      (base.merge later).merge latest = base.merge (later.merge latest)) ∧
    (∀ options : Options, empty.merge options = options ∧ options.merge empty = options ∧
      options.merge options = options) ∧
    (∀ first second : List Setting,
      second.foldl set (first.foldl set empty) = (ofSettings first).merge (ofSettings second)) ∧
    (∀ merging : Merging, FilledIn merging.result.resolve
      (lastSet? Options.placeholder merging.elements) (lastSet? Options.indent merging.elements)
      (lastSet? Options.quoting merging.elements) (lastSet? Options.flavor merging.elements)) ∧
    ∀ settings : List Setting, FilledIn (ofSettings settings).resolve
      (settings.filterMap Setting.placeholder?).getLast?
      (settings.filterMap Setting.indent?).getLast?
      (settings.filterMap Setting.quoting?).getLast?
      (settings.filterMap Setting.flavor?).getLast? := by
  refine ⟨merge_assoc, ?_, ?_, ?_, ?_⟩
  · intro options
    exact ⟨empty_merge options, merge_empty options, merge_self options⟩
  · intro first second
    exact foldl_set_eq_merge (ofSettings first) second
  · intro merging
    rw [← merging.field_result .placeholder, ← merging.field_result .indent,
      ← merging.field_result .quoting, ← merging.field_result .flavor]
    exact filledIn_resolve merging.result
  · intro settings
    have hread (setting : Setting) :
        (empty.set setting).placeholder = setting.placeholder? ∧
          (empty.set setting).indent = setting.indent? ∧
          (empty.set setting).quoting = setting.quoting? ∧
          (empty.set setting).flavor = setting.flavor? := by
      cases setting <;> exact ⟨rfl, rfl, rfl, rfl⟩
    rw [← field_ofSettings .placeholder fun setting ↦ (hread setting).1,
      ← field_ofSettings .indent fun setting ↦ (hread setting).2.1,
      ← field_ofSettings .quoting fun setting ↦ (hread setting).2.2.1,
      ← field_ofSettings .flavor fun setting ↦ (hread setting).2.2.2]
    exact filledIn_resolve (ofSettings settings)

/-- Quotes that were turned off stay off when a flavor is chosen later. -/
example : (ofSettings [.noQuote, .flavor .postgresql]).resolve.quoting = .bare := by
  decide

end SqlSelect.Options
