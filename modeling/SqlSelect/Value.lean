import SqlSelect.DateTime

/-!
# Literal values

A literal never appears in the text of a statement. It is bound as a parameter,
after `normalize` has turned a truth value into the integer 0 or 1.
-/

namespace SqlSelect

inductive Value where
  | null
  | bool (b : Bool)
  | int (i : Int64)
  | nat (n : UInt64)
  | float (x : Float)
  | string (s : String)
  | datetime (t : DateTime)
deriving DecidableEq, Repr

namespace Value

/-- The form in which a value is bound. -/
def normalize : Value → Value
  | bool b => int (if b then 1 else 0)
  | value => value

/-- What a value is bound as: a truth value as the integer 0 or 1, any other value as itself. -/
inductive BoundAs : Value → Value → Prop
  | false : BoundAs (bool false) (int 0)
  | true : BoundAs (bool true) (int 1)
  | same {value : Value} (h : ∀ b, value ≠ bool b) : BoundAs value value

theorem boundAs_normalize (value : Value) : value.BoundAs value.normalize := by
  cases value with
  | bool b => cases b with
    | false => exact .false
    | true => exact .true
  | _ => exact .same nofun

/-- There is one form in which a value is bound. -/
theorem boundAs_iff {value bound : Value} : value.BoundAs bound ↔ bound = value.normalize := by
  constructor
  · intro h
    cases h with
    | false | true => rfl
    | same h =>
      cases value with
      | bool b => exact absurd rfl (h b)
      | _ => rfl
  · rintro rfl
    exact boundAs_normalize value

/-- Equality of values: floating-point numbers as IEEE 754 compares them, dates as instants. -/
def eqv (sameInstant : DateTime → DateTime → Bool) : Value → Value → Bool
  | null, null => true
  | bool a, bool b => a == b
  | int a, int b => a == b
  | nat a, nat b => a == b
  | float a, float b => a == b
  | string a, string b => a == b
  | datetime a, datetime b => sameInstant a b
  | _, _ => false

end Value

/-- Data that can be used as a literal. -/
class ToValue (α : Type) where
  toValue : α → Value

export ToValue (toValue)

instance : ToValue Value := ⟨id⟩
instance : ToValue Unit := ⟨fun _ ↦ .null⟩
instance : ToValue Bool := ⟨.bool⟩
instance : ToValue Int8 := ⟨fun i ↦ .int i.toInt64⟩
instance : ToValue Int16 := ⟨fun i ↦ .int i.toInt64⟩
instance : ToValue Int32 := ⟨fun i ↦ .int i.toInt64⟩
instance : ToValue Int64 := ⟨.int⟩
instance : ToValue UInt8 := ⟨fun n ↦ .nat n.toUInt64⟩
instance : ToValue UInt16 := ⟨fun n ↦ .nat n.toUInt64⟩
instance : ToValue UInt32 := ⟨fun n ↦ .nat n.toUInt64⟩
instance : ToValue UInt64 := ⟨.nat⟩
instance : ToValue Float32 := ⟨fun x ↦ .float x.toFloat⟩
instance : ToValue Float := ⟨.float⟩
instance : ToValue String := ⟨.string⟩
instance : ToValue DateTime := ⟨.datetime⟩

/-- An absent datum is the null literal. -/
instance {α : Type} [ToValue α] : ToValue (Option α) :=
  ⟨fun
    | some a => toValue a
    | none => .null⟩

end SqlSelect
